import SignedHttp.Json.Reader
import SignedHttp.Proofs.Policy.Registry
import SignedHttp.Proofs.Signature.Grammar
import SignedHttp.Proofs.Verify.Outcome

/-!
# The Policies in Force

A verifier is made of a configuration whose default policy is defined, and whenever the
configuration is replaced the new one is looked at in the same way; keys come and go
beside it. So the default policy is there in every state that a verifier gets into, and
a verification that names no policy does not fail for want of one. A configuration that
is refused leaves the verifier with the one it has.

What else can end a verification before anything is checked has codes of its own, so
that the code of an unknown policy says what it seems to say: a policy was named, and it
is not there (`Refuses.exists_policy`).

## Main definitions

* `Verifier.Change`, `Verifier.run`: What is done to a verifier.
* `Verifier.HasDefault`: The default policy is there.

## Theorems

* `VerificationCode.name_injective`: Codes are told apart by their names.
* `Change.after_cases`: What a change does to the policies.
* `HasDefault.run`, `sound_policies_run`: The default policy stays, and policies stay sound.
* `Refuses.exists_policy`: A policy that is unknown was named.
* `refuses_of_fault`: What the fault of a verdict says.
* `Gathers.usable`: What a verification checks against.
* `only_valid_policies_in_force`: What holds of registries and verifiers together.
-/

namespace SignedHttp

namespace VerificationCode

theorem mem_all (c : VerificationCode) : c ∈ all := by
  cases c <;> decide

/-- Codes are told apart by their names. -/
theorem name_injective : Function.Injective name := fun c d h =>
  List.inj_on_of_nodup_map (by decide +kernel : (all.map name).Nodup) (mem_all c) (mem_all d) h

end VerificationCode

namespace Received

/-- What is wrong with headers has nothing to do with policies. -/
theorem FirstFault.code_ne_unknownPolicy {headers : Fields} {e : VerificationError}
    (h : FirstFault headers e) : e.code ≠ .unknownPolicy := by
  cases h with
  | noInput => exact nofun
  | noSignature => exact nofun
  | input => exact nofun
  | params _ h =>
      cases h with
      | missing => exact nofun
      | created => exact nofun
  | signature => exact nofun
  | label => exact nofun
  | digest _ _ _ _ _ hcode =>
      rw [hcode]
      exact nofun

end Received

namespace Verifier

/-- The default policy is there. -/
def HasDefault (v : Verifier) : Prop :=
  v.config.policies.contains v.config.defaultPolicy = true

/-- Something that is done to a verifier. -/
inductive Change
  | update (config : VerifierConfig)
  | addKey (keyId : Bytes) (key : PublicKey)
  | removeKey (keyId : Bytes)

/-- The verifier that a change gives, or why it gives none. -/
def Change.result (v : Verifier) : Change → Except ConfigError Verifier
  | update config => create config
  | addKey keyId key => .ok (v.addKey keyId key)
  | removeKey keyId => .ok (v.removeKey keyId)

/-- The verifier after a change; one that is refused leaves it as it was. -/
def Change.after (v : Verifier) (c : Change) : Verifier :=
  match c.result v with
  | .ok v => v
  | .error _ => v

/-- The verifier after some changes. -/
def run (v : Verifier) (changes : List Change) : Verifier := changes.foldl Change.after v

variable {v : Verifier} {config : VerifierConfig} {headers : Fields} {o : VerifyOptions}
  {abort : Abort} {err : VerificationError} {e : Evidence} {elapsed : Nat}

/-- A verifier is made of any configuration that has its default policy. -/
theorem create_eq_ok_iff :
    create config = .ok v ↔ v.config = config ∧ v.HasDefault := by
  unfold create HasDefault
  constructor
  · intro h
    split at h
    next hdefault =>
      rw [← Except.ok.inj h]
      exact ⟨rfl, hdefault⟩
    · cases h
  · rintro ⟨rfl, hdefault⟩
    rw [if_pos hdefault]

/-- A change puts a configuration in force, one with its default policy, or it leaves the
policies as they are: keys are no part of them, and what is refused changes nothing. -/
theorem Change.after_cases (v : Verifier) (c : Change) :
    (∃ config, c = .update config ∧ (c.after v).config = config ∧ (c.after v).HasDefault) ∨
      ((c.after v).config.policies = v.config.policies ∧
        (c.after v).config.defaultPolicy = v.config.defaultPolicy) := by
  cases c with
  | update config =>
      simp only [Change.after, Change.result]
      cases hcreate : create config with
      | ok v' => exact Or.inl ⟨config, rfl, create_eq_ok_iff.1 hcreate⟩
      | error e => exact Or.inr ⟨rfl, rfl⟩
  | addKey keyId key => exact Or.inr ⟨rfl, rfl⟩
  | removeKey keyId => exact Or.inr ⟨rfl, rfl⟩

theorem HasDefault.after (h : v.HasDefault) (c : Change) : (c.after v).HasDefault := by
  rcases c.after_cases v with ⟨config, -, -, hdefault⟩ | ⟨hpolicies, hname⟩
  · exact hdefault
  · rw [HasDefault, hpolicies, hname]
    exact h

theorem HasDefault.run (h : v.HasDefault) (changes : List Change) :
    (v.run changes).HasDefault := by
  induction changes generalizing v with
  | nil => exact h
  | cons c changes ih => exact ih (h.after c)

/-- A verifier has sound policies as long as every configuration that it is given has. -/
theorem sound_policies_run (h : v.config.policies.Sound) {changes : List Change}
    (hchanges : ∀ config, .update config ∈ changes → config.policies.Sound) :
    (v.run changes).config.policies.Sound := by
  induction changes generalizing v with
  | nil => exact h
  | cons c changes ih =>
      refine ih ?_ fun config hconfig => hchanges config (List.mem_cons_of_mem c hconfig)
      -- Only a new configuration brings policies, and that was asked to be sound.
      rcases c.after_cases v with ⟨config, rfl, hconfig, -⟩ | ⟨hpolicies, -⟩
      · rw [hconfig]
        exact hchanges config (List.mem_cons_self ..)
      · rw [hpolicies]
        exact h

/-- A policy is unknown only if it was named: of all the reasons why nothing can be checked
only this one has the code. -/
theorem Refuses.exists_policy (hdefault : v.HasDefault) (h : v.Refuses headers o abort err)
    (hcode : err.code = .unknownPolicy) :
    ∃ name, o.policy = some name ∧ v.config.policies.find? name = none := by
  cases h with
  | extraction h =>
      exact absurd hcode (Received.firstFault_of_ofHeaders h).code_ne_unknownPolicy
  | policy hreceived h =>
      cases hpolicy : o.policy with
      | none =>
          -- It is the default policy that was looked up, and that one is there.
          rw [hpolicy, Option.getD_none] at h
          rw [HasDefault, PolicyRegistry.contains, Table.contains] at hdefault
          rw [PolicyRegistry.find?] at h
          rw [h] at hdefault
          cases hdefault
      | some name =>
          rw [hpolicy, Option.getD_some] at h
          exact ⟨name, rfl, h⟩
  | key hreceived hpolicy h =>
      cases h with
      | skipped => cases hcode
      | unknown => cases hcode
      | canceled => cases hcode

/-- A verification that ends in a fault had nothing to check, and the fault says why. -/
theorem refuses_of_fault {suite : Suite} {m : Message} {w : World} {fault : Fault}
    (h : (v.verify suite m headers o abort w).1.fault = some fault) :
    ∃ err, v.Refuses headers o abort err ∧ fault.code = err.code.name := by
  -- Where there was something to check no fault is named.
  rcases refuses_or_gathers v headers o abort with ⟨err, hrefuses⟩ | ⟨e, elapsed, hgathers⟩
  · rw [(reports_of_refuses hrefuses suite m w).fault] at h
    rw [← Option.some.inj h]
    exact ⟨err, hrefuses, rfl⟩
  · rcases verify_of_gathers hgathers suite m w with ⟨performance, heq⟩
    rw [heq] at h
    cases h

/-- What a verification checks against is usable, if everything in the registry is. -/
theorem Gathers.usable (hpolicies : v.config.policies.Sound)
    (h : v.Gathers headers o abort e elapsed) :
    e.policy.Usable ∧ e.policy.name = o.policy.getD v.config.defaultPolicy :=
  hpolicies.usable_of_find? h.policy

/-- A text that is no registry has one of three codes, whatever the reader of JSON takes it for.
A registry holds usable policies under their own names, whatever is done to it; a policy is added
exactly if it is usable, and what is refused changes nothing. A verifier has its default policy,
whatever is done to it, so that a verification that names none never fails for want of it; and
what a verification checks against is usable if the policies come from such registries. -/
theorem only_valid_policies_in_force :
    (∀ read guard text,
      (∃ r, (PolicyRegistry.loadJson read guard text).1 = .ok r) ∨
        ∃ e, (PolicyRegistry.loadJson read guard text).1 = .error e ∧
          e.code ∈ ([.malformedSource, .unknownRule, .invalidPolicy] : List ConfigCode)) ∧
    (∀ calls, ∀ entry ∈ (PolicyRegistry.run {} calls).policies.entries,
      entry.2.validate = .ok () ∧ entry.2.name = entry.1) ∧
    (∀ (r : PolicyRegistry) p,
      (∀ err, r.add p = .error err ↔ p.validate = .error err) ∧
      ∀ err, r.add p = .error err → PolicyRegistry.Call.after r (.add p) = r) ∧
    (∀ config created changes, create config = .ok created →
      let v := created.run changes
      (v.config.policies.contains v.config.defaultPolicy = true ∧
        ∀ suite m headers o abort w, o.policy = none →
          ∀ fault, (v.verify suite m headers o abort w).1.fault = some fault →
            fault.code ≠ VerificationCode.unknownPolicy.name) ∧
      ((∃ calls, config.policies = PolicyRegistry.run {} calls) →
        (∀ other, .update other ∈ changes →
          ∃ calls, other.policies = PolicyRegistry.run {} calls) →
        ∀ headers o abort e elapsed, v.Gathers headers o abort e elapsed →
          e.policy.validate = .ok () ∧ e.policy.name = o.policy.getD v.config.defaultPolicy)) := by
  refine ⟨fun read guard text => ?_, fun calls entry hentry => ?_,
    fun r p => ⟨fun err => map_eq_error, fun err hadd => ?_⟩,
    fun config created changes hcreate => ⟨?_, fun hmade hchanges => ?_⟩⟩
  · rw [PolicyRegistry.loadJson_fst]
    cases h : PolicyRegistry.ofText read guard text with
    | ok r => exact Or.inl ⟨r, rfl⟩
    | error e => exact Or.inr ⟨e, rfl, PolicyRegistry.ofText_faults h⟩
  · rcases PolicyRegistry.sound_empty.run calls entry hentry with ⟨husable, hname⟩
    exact ⟨Policy.validate_eq_ok_iff.2 husable, hname⟩
  · have hresult : PolicyRegistry.Call.result r (.add p) = .error (.verification err) :=
      congrArg (Except.mapError Failure.verification) hadd
    rw [PolicyRegistry.Call.after, hresult]
  · have hdefault := (create_eq_ok_iff.1 hcreate).2.run changes
    refine ⟨hdefault, fun suite m headers o abort w hunnamed fault hfault hcode => ?_⟩
    rcases refuses_of_fault hfault with ⟨err, hrefuses, hname⟩
    have herr := VerificationCode.name_injective (hname.symm.trans hcode)
    rcases hrefuses.exists_policy hdefault herr with ⟨name, hnamed, -⟩
    rw [hunnamed] at hnamed
    cases hnamed
  · have hsound : ∀ r : PolicyRegistry, (∃ calls, r = PolicyRegistry.run {} calls) → r.Sound := by
      rintro r ⟨calls, rfl⟩
      exact PolicyRegistry.sound_empty.run calls
    have hpolicies : created.config.policies.Sound := by
      rw [(create_eq_ok_iff.1 hcreate).1]
      exact hsound _ hmade
    intro headers o abort e elapsed hgathers
    have hrun := sound_policies_run hpolicies fun other hother =>
      hsound _ (hchanges other hother)
    rcases hgathers.usable hrun with ⟨husable, hname⟩
    exact ⟨Policy.validate_eq_ok_iff.2 husable, hname⟩

/-- A verifier whose policies are read from a text. A configuration without policies is refused,
and the verifier keeps its default policy. -/
theorem standard_in_force_after_refused_update :
    ∃ v : Verifier,
      ((PolicyRegistry.loadJson Json.parse? 0 "\x7b\"standard\":\x7b\x7d\x7d").1 >>=
        fun policies => create { policies }) = .ok v ∧
      ∀ keyId key suite m headers abort w fault,
        ((v.run [.update { policies := {} }, .addKey keyId key]).verify
          suite m headers {} abort w).1.fault = some fault →
        fault.code ≠ VerificationCode.unknownPolicy.name := by
  rcases exists_ok_of_isOk (x := (PolicyRegistry.loadJson Json.parse? 0
    "\x7b\"standard\":\x7b\x7d\x7d").1 >>= fun policies => create { policies })
    (by decide +kernel) with ⟨v, hv⟩
  rcases bind_eq_ok.1 hv with ⟨policies, -, hcreate⟩
  refine ⟨v, hv, fun keyId key suite m headers abort w fault hfault => ?_⟩
  exact (only_valid_policies_in_force.2.2.2 { policies } v
    [.update { policies := {} }, .addKey keyId key] hcreate).1.2 suite m headers {} abort w rfl
    fault hfault

end Verifier

end SignedHttp
