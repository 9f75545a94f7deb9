import SignedHttp.Proofs.Crypto.Suite
import SignedHttp.Proofs.Except
import SignedHttp.Proofs.Verify.Run

/-!
# At Most One Acceptance

A signed request is accepted at most once. Two things work together for this. Its time
stamp is accepted during a window, which has an end; its nonce is remembered by the
guard for a retention, which has an end too. If the retention is longer than the window
can be, then by the time that the guard forgets the nonce the time stamp is too old.

A window is as long as the greatest age and the minute by which a time stamp may lie in
the future. The date is in whole seconds and the guard counts milliseconds, so that two
calls within the window may be almost one second further apart. A call reads the date and
shows its nonce to the guard at one and the same moment; if time passed between the two,
no retention would be long enough for every such gap.

The argument is an invariant of runs. After a call that was accepted, the guard
remembers the nonce from the moment of the call, as long as fewer others are shown than
it has room for (`Keeps`). Each event preserves it, so it holds at the moment of the
second call, and by then it is too late for the time stamp.

## Main definitions

* `Call.Limits`: The policy of a call looks at the nonce, and at an age that is limited.
* `Keeps`: A guard remembers the nonce of a call that was accepted.

## Theorems

* `Call.of_valid`: A call that is accepted is made in time, and its nonce is new.
* `Keeps.run`: The nonce is remembered along a run.
* `not_both_valid`: No two calls with the same nonce and time stamp are accepted.
-/

namespace SignedHttp

namespace Call

variable {suite : Suite} {id : GuardId} {c : Call}

/-- The policy of the call looks at the nonce, and at the time stamp, which may be at most `age`
seconds old. -/
def Limits (age : Int) (c : Call) : Prop :=
  ∃ policy, c.verifier.config.policies.find?
      (c.options.policy.getD c.verifier.config.defaultPolicy) = some policy ∧
    policy.verifyNonce = true ∧ policy.verifyTimestamp = true ∧
    ∃ limit ∈ policy.maxTimestampAge, limit ≤ age

/-- A call that is accepted under such a policy is made in time, and shows a nonce that is new. -/
theorem of_valid {age : Int} {r : Received} (h : c.status suite = .valid)
    (hid : c.verifier.config.replayGuard = some id) (hlimits : c.Limits age)
    (hr : Received.ofHeaders c.headers = .ok r) :
    -clockSkew ≤ c.world.clock.unixTime - r.params.created ∧
      c.world.clock.unixTime - r.params.created ≤ age ∧
      (c.world.checkNonce id r.params.nonce r.params.created).1 = true ∧
      c.after suite = (c.world.checkNonce id r.params.nonce r.params.created).2.1 := by
  rcases status_eq_valid_iff.1 h with ⟨e, he, hall⟩
  rcases Checks.all_iff.1 hall with ⟨hformat, hgenuine, htimestamp, hnonce, _⟩
  rcases Verifier.gather_eq_ok_iff.1 he with ⟨hreceived, hfound, _⟩
  rcases hlimits with ⟨policy, hpolicy, hverifyNonce, hverifyTimestamp, limit, hlimit, hage⟩
  -- The evidence of the call is about the claims and the policy that are given.
  rw [hr] at hreceived
  rw [hpolicy] at hfound
  rw [Except.ok.inj hreceived]
  rw [Option.some.inj hfound] at hverifyNonce hverifyTimestamp hlimit
  have hvalid := Verifier.isValidNonce_of_checkNonce hverifyNonce hnonce
  have hwindow := (Verifier.checkTimestamp_iff
    (Verifier.isValidTimestamp_of_checkFormat hformat)).1 htimestamp hverifyTimestamp
  -- A genuine signature is shown to the guard of the verifier, which is this one.
  have hguard := (Verifier.guardFor_of_genuine (v := c.verifier) hgenuine).trans hid
  have hshown := Verifier.checkNonce_shown hverifyNonce hvalid id c.world
  refine ⟨hwindow.1, Int.le_trans (hwindow.2 limit hlimit) hage, ?_, ?_⟩
  · rw [← hshown, ← hguard]
    exact hnonce
  · rw [after, he, ← hshown, ← hguard]
    rfl

end Call

/-- Since a call in the world `w₀` was accepted, the guard has not forgotten its nonce, and time
went on. -/
structure Keeps (id : GuardId) (nonce : Bytes) (shown : Finset Bytes) (w₀ w : World) : Prop where
  epoch : w.clock.epoch = w₀.clock.epoch
  elapsed : w₀.clock.elapsed ≤ w.clock.elapsed
  retention : (w.guards id).retention = (w₀.guards id).retention
  capacity : (w.guards id).seen.capacity = (w₀.guards id).seen.capacity
  remembers : (w.guards id).Remembers nonce w₀.clock.elapsed shown

namespace Keeps

variable {suite : Suite} {id : GuardId} {nonce : Bytes} {shown : Finset Bytes} {w₀ w w' : World}

/-- When a call is accepted, the guard has just recorded its nonce. -/
theorem of_new {created : Int} (h : (w₀.checkNonce id nonce created).1 = true)
    (hcapacity : 0 < (w₀.guards id).seen.capacity) (shown : Finset Bytes) :
    Keeps id nonce shown w₀ (w₀.checkNonce id nonce created).2.1 := by
  have hsettings := ReplayGuard.check_settings w₀.clock.elapsed nonce (w₀.guards id)
  refine ⟨rfl, Nat.le_refl _, ?_, ?_, ?_⟩
  · rw [World.checkNonce_guard, hsettings.1]
  · rw [World.checkNonce_guard, hsettings.2]
  · rw [World.checkNonce_guard]
    exact ReplayGuard.remembers_of_new h hcapacity shown

theorem wait (h : Keeps id nonce shown w₀ w) (hw : w.Waits id w') : Keeps id nonce shown w₀ w' where
  epoch := hw.epoch.trans h.epoch
  elapsed := Nat.le_trans h.elapsed hw.elapsed
  retention := by rw [hw.guard, h.retention]
  capacity := by rw [hw.guard, h.capacity]
  remembers := by rw [hw.guard]; exact h.remembers

/-- Showing a nonce of those expected does not make it forget. -/
theorem checkNonce (h : Keeps id nonce shown w₀ w) {other : Bytes} (created : Int)
    (hmem : other ∈ shown) (hroom : (shown.erase nonce).card < (w₀.guards id).seen.capacity) :
    Keeps id nonce shown w₀ (w.checkNonce id other created).2.1 := by
  have hsettings := ReplayGuard.check_settings w.clock.elapsed other (w.guards id)
  refine ⟨h.epoch, h.elapsed, ?_, ?_, ?_⟩
  · rw [World.checkNonce_guard, hsettings.1, h.retention]
  · rw [World.checkNonce_guard, hsettings.2, h.capacity]
  · rw [World.checkNonce_guard]
    exact h.remembers.check h.elapsed hmem (h.capacity ▸ hroom)

/-- Nor does another call. -/
theorem after {c : Call} (h : Keeps id nonce shown w₀ c.world)
    (hid : c.verifier.config.replayGuard = some id) (hmem : ∀ n ∈ c.shown suite, n ∈ shown)
    (hroom : (shown.erase nonce).card < (w₀.guards id).seen.capacity) :
    Keeps id nonce shown w₀ (c.after suite) := by
  rcases Call.after_eq suite hid with ⟨-, hafter⟩ | ⟨other, created, hshown, hafter⟩
  · rw [hafter]
    exact h
  · rw [hafter]
    refine h.checkNonce created (hmem other ?_) hroom
    rw [hshown]
    exact List.mem_singleton_self other

/-- Along a run without a replacement of the guard the nonce is remembered, if no more others
are shown than the guard has room for. -/
theorem run {es : List GuardEvent} (hrun : Run suite id w es w') (h : Keeps id nonce shown w₀ w)
    (hkept : .replaced ∉ es) (hmem : ∀ e ∈ es, ∀ n ∈ e.nonces suite, n ∈ shown)
    (hroom : (shown.erase nonce).card < (w₀.guards id).seen.capacity) :
    Keeps id nonce shown w₀ w' := by
  -- Each step keeps the invariant, and the only one that would not is excluded.
  induction hrun with
  | done _ => exact h
  | wait hw _ ih => exact ih (h.wait hw) hkept hmem
  | checked hid _ ih =>
      rw [List.mem_cons, not_or] at hkept
      rw [List.forall_mem_cons] at hmem
      exact ih (h.after hid hmem.1 hroom) hkept.2 hmem.2
  | @shown _ _ n created _ _ ih =>
      rw [List.mem_cons, not_or] at hkept
      rw [List.forall_mem_cons] at hmem
      exact ih (h.checkNonce created (hmem.1 n (List.mem_singleton_self n)) hroom) hkept.2 hmem.2
  | replaced _ _ => exact absurd (List.mem_cons_self ..) hkept

end Keeps

namespace Run

variable {suite : Suite} {id : GuardId} {w w' : World}

/-- Of two calls whose signatures have the same nonce and time stamp at most one is accepted, if
the guard is not replaced in between, has room for the other nonces that are shown, and
remembers for a minute more than the greatest age and one second. The retention of the age and
61 seconds is enough because each call reads the date and shows its nonce at one moment, that of
its world: what passes between two calls is the same for the time stamp and for the guard. -/
theorem not_both_valid {before between rest : List GuardEvent} {a b : Call} {r s : Received}
    {age : Int}
    (hrun : Run suite id w (before ++ .checked a :: (between ++ .checked b :: rest)) w')
    (ha : Received.ofHeaders a.headers = .ok r) (hb : Received.ofHeaders b.headers = .ok s)
    (hnonce : s.params.nonce = r.params.nonce) (hcreated : s.params.created = r.params.created)
    (hlimits : a.Limits age ∧ b.Limits age)
    (hretention : (age + 61) * 1000 ≤ (a.world.guards id).retention)
    (hkept : .replaced ∉ between)
    (hroom : ((between.flatMap (·.nonces suite)).toFinset.erase r.params.nonce).card
      < (a.world.guards id).seen.capacity) :
    ¬ (a.status suite = .valid ∧ b.status suite = .valid) := by
  intro hvalid
  rcases hvalid with ⟨hvalidA, hvalidB⟩
  -- The run comes apart at the two calls.
  rcases of_append hrun with ⟨u, -, hrun⟩
  rcases of_checked hrun with ⟨-, hidA, hrun⟩
  rcases of_append hrun with ⟨v, hbetween, hrun⟩
  rcases of_checked hrun with ⟨hwait, hidB, -⟩
  rcases Call.of_valid hvalidA hidA hlimits.1 ha with ⟨hfutureA, -, hnewA, hafter⟩
  rcases Call.of_valid hvalidB hidB hlimits.2 hb with ⟨-, holdB, hnewB, -⟩
  rw [hcreated] at holdB hnewB
  rw [hnonce, World.checkNonce_new] at hnewB
  -- From the first call to the second one the guard remembers the nonce.
  have hkeeps : Keeps id r.params.nonce (between.flatMap (·.nonces suite)).toFinset a.world
      b.world := by
    have hfirst := Keeps.of_new hnewA (by omega) (between.flatMap (·.nonces suite)).toFinset
    rw [← hafter] at hfirst
    refine (hfirst.run hbetween hkept (fun e he n hn => ?_) hroom).wait hwait
    exact List.mem_toFinset.2 (List.mem_flatMap.2 ⟨e, he, hn⟩)
  -- The window of the time stamp ends before the retention of the nonce.
  have hwindow : (b.world.clock.elapsed : Int) - a.world.clock.elapsed
      ≤ (b.world.guards id).retention := by
    have hepoch := hkeeps.epoch
    have hsame := hkeeps.retention
    unfold Clock.unixTime at hfutureA holdB
    unfold clockSkew at hfutureA
    omega
  rw [hkeeps.remembers.not_new hwindow] at hnewB
  exact Bool.noConfusion hnewB

/-- A request that was accepted is shown again ten seconds later. -/
theorem not_both_valid_again :
    let octets (n : Nat) (text : Bytes) : Octets n := (Octets.ofHex? n text).getD (.zero n)
    let key : PrivateKey :=
      octets 32 "9d61b19deffd5a60ba844af492ec2cc44449c5697b326919703bac031cae7f60"
    let pub : PublicKey :=
      octets 32 "d75a980182b10ab7d54bfed3c964073a0ee172f3daa62325af021a68f707511a"
    let signature : RawSignature :=
      octets 64 ("5fb05358b9dad3cecdf89c66bf3b1762e939acc6910e35fc3e7624402f6c10de" ++
        "fa99d4e659d4e3a34830c37661bc7a6a925c03e71753b49394758dab207fa508")
    let list : Bytes := "(\"@method\");created=1700000000;keyid=\"k\";" ++
      "alg=\"ed25519\";nonce=\"3fa85f64-5717-4562-b3fc-2c963f66afa6\""
    let text : Bytes := "\"@method\": GET\n\"@signature-params\": " ++ list
    let suite := Suite.recorded key pub text signature
    let headers : Fields := ⟨[("Signature-Input", "sig1=" ++ list),
      ("Signature", Delimited.render "sig1" signature.toHex)]⟩
    let policy : Policy := { name := "standard", maxTimestampAge := some 300 }
    let v : Verifier := ⟨{ policies := ⟨.ofList [("standard", policy)]⟩, replayGuard := some 0 }⟩
    let call (w : World) : Call :=
      { verifier := v, message := ⟨.get, "http://h/", headers, none⟩, headers
        options := { publicKey := some pub }, world := w, rules := true }
    let first := call { clock := ⟨1700000060, 0⟩, random := fun _ => .zero 16 }
    let second := call ((first.after suite).advance 10000)
    first.status suite = .valid ∧ second.status suite ≠ .valid := by
  intro octets key pub signature list text suite headers policy v call first second
  have hfirst : first.status suite = .valid := by decide +kernel
  rcases exists_ok_of_isOk (show (Received.ofHeaders headers).isOk = true by decide +kernel)
    with ⟨r, hr⟩
  have hlimits : ∀ w, (call w).Limits 300 := fun _ =>
    ⟨policy, rfl, rfl, rfl, 300, rfl, Int.le_refl 300⟩
  have hguard : ∀ w, (call w).verifier.config.replayGuard = some 0 := fun _ => rfl
  have hlast : Run suite 0 second.world [.checked second] (second.after suite) :=
    .checked (hguard _) (.done _)
  have hrest : Run suite 0 (first.after suite) [.checked second] (second.after suite) :=
    .wait (World.waits_advance 0 10000 _) hlast
  have hrun : Run suite 0 first.world ([] ++ .checked first :: ([] ++ [.checked second]))
      (second.after suite) := .checked (hguard _) hrest
  have hretention : ((300 : Int) + 61) * 1000 ≤ (first.world.guards 0).retention := by
    rw [show (first.world.guards 0).retention = 3600000 from rfl]
    omega
  have hroom : ((([] : List GuardEvent).flatMap (·.nonces suite)).toFinset.erase
      r.params.nonce).card < (first.world.guards 0).seen.capacity := by
    rw [show (first.world.guards 0).seen.capacity = 10000 from rfl, List.flatMap_nil,
      List.toFinset_nil, Finset.erase_empty, Finset.card_empty]
    omega
  exact ⟨hfirst, fun hsecond => not_both_valid hrun hr hr rfl rfl ⟨hlimits _, hlimits _⟩ hretention
    List.not_mem_nil hroom ⟨hfirst, hsecond⟩⟩

end Run

end SignedHttp
