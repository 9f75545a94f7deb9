import Mathlib.Data.List.Induction
import SignedHttp.Proofs.Crypto.Suite
import SignedHttp.Proofs.Signing.Written
import SignedHttp.Signing.Builder

/-!
# Which Required Headers Are Signed

A header that is required is covered too, when it is required. A later step may change
that. There are three things that a step can do to the list of covered headers: it puts
another list in its place, it adds a name, or it leaves the list as it is
(`HeaderChange`). A profile and a list of headers do the first, and neither looks at what
is required. So a name is covered at the end if some step brought it and none of those
that followed dropped it (`Covers`); the builder begins with the standard profile, which
counts as the first step.

Nothing ever drops a name from the required ones. They are the names of the steps that
require one, and a configuration may well require a header that it does not cover
(`required_header_not_signed`). A signature is then made for messages that have the header, and
the header is not signed.

What is both required and covered is signed without exception. The signer leaves out
headers that the message does not have, but it refuses a message that lacks a required
one.

## Main definitions

* `SigningBuilder.HeaderChange`: What a step does to the covered headers.
* `SigningBuilder.Covers`: Some step brings a name and no later one drops it.

## Theorems

* `mem_headers_apply`, `mem_headers_run`: The headers covered after a step, and after all.
* `mem_requiredHeaders_run`: The headers required after all steps.
* `build_eq_ok`: What a finished configuration has of the builder.
* `required_header_not_signed`: A required header that is not signed.
* `signs_required`: Which required headers are covered, and that these are signed.
-/

namespace SignedHttp

/-- Lower case is put in lower case once and for all. -/
theorem Bytes.lower_lower (s : Bytes) : s.lower.lower = s.lower := by
  have htwice : ∀ b, Ascii.toLower (Ascii.toLower b) = Ascii.toLower b := by
    refine Ascii.forall_of_fin (p := fun b => Ascii.toLower (Ascii.toLower b) = Ascii.toLower b) ?_
    decide +kernel
  rw [Bytes.lower, Bytes.lower, List.map_map]
  exact List.map_congr_left fun b _ => htwice b

/-- A name is added in lower case, and it counts as added if it was listed before. -/
theorem Components.mem_headers_addHeader {c : Components} {added name : Bytes} :
    name ∈ (c.addHeader added).headers ↔ name = added.lower ∨ name ∈ c.headers := by
  rw [addHeader]
  split
  · next hlisted =>
    rw [coversHeader, List.contains_iff_mem] at hlisted
    refine ⟨Or.inr, fun h => h.elim (fun heq => ?_) id⟩
    rw [heq]
    exact hlisted
  · rw [List.mem_append, List.mem_singleton]
    exact Or.comm

namespace SigningBuilder

/-- What a step does to the covered headers. -/
inductive HeaderChange
  | replace (names : List Bytes)
  | add (name : Bytes)
  | keep

namespace HeaderChange

/-- After the change the name is covered, whether it was before or not. -/
def Brings (name : Bytes) : HeaderChange → Prop
  | replace names => name ∈ names
  | add added => name = added
  | keep => False

/-- After the change the name is not covered, whether it was before or not. -/
def Drops (name : Bytes) : HeaderChange → Prop
  | replace names => name ∉ names
  | add _ => False
  | keep => False

end HeaderChange

/-- What a step does to the covered headers: a profile and a list replace them. -/
def Step.headerChange : Step → HeaderChange
  | .profile p => .replace p.components.headers
  | .headers names => .replace (names.map Bytes.lower)
  | .addHeader name => .add name.lower
  | .requireHeader name => .add name.lower
  | _ => .keep

/-- One of the steps brings the name, and none of those that follow drops it. -/
def Covers (steps : List Step) (name : Bytes) : Prop :=
  ∃ before s after, steps = before ++ s :: after ∧ s.headerChange.Brings name ∧
    ∀ t ∈ after, ¬ t.headerChange.Drops name

variable {b : SigningBuilder} {steps : List Step} {s : Step} {name : Bytes} {c : SigningConfig}

/-- A name is covered after a step that brings it, or if it was before and is not dropped. -/
theorem mem_headers_apply :
    name ∈ (b.apply s).config.components.headers ↔
      s.headerChange.Brings name ∨
        name ∈ b.config.components.headers ∧ ¬ s.headerChange.Drops name := by
  have hreplace : ∀ names : List Bytes, name ∈ names ↔
      name ∈ names ∨ name ∈ b.config.components.headers ∧ ¬ name ∉ names :=
    fun names => ⟨Or.inl, fun h => h.elim id fun h => Decidable.not_not.1 h.2⟩
  have hkeep : name ∈ b.config.components.headers ↔
      False ∨ name ∈ b.config.components.headers ∧ ¬ False :=
    ⟨fun h => Or.inr ⟨h, not_false⟩, fun h => h.elim False.elim And.left⟩
  have hadd : ∀ added : Bytes, name ∈ (b.config.components.addHeader added).headers ↔
      name = added.lower ∨ name ∈ b.config.components.headers ∧ ¬ False := by
    intro added
    rw [Components.mem_headers_addHeader, not_false_iff, and_true]
  -- Fourteen kinds of steps, but three ways to treat the list.
  cases s with
  | profile p => exact hreplace p.components.headers
  | headers names => exact hreplace (names.map Bytes.lower)
  | addHeader added => exact hadd added
  | requireHeader added =>
      -- The name is put in lower case first, and then added like any other.
      have hlower := hadd added.lower
      rw [Bytes.lower_lower] at hlower
      exact hlower
  | keyId | rawKey | privateKey | method | targetUri | contentDigest | strictHeaders | label
  | nonces | timestamps => exact hkeep

theorem run_concat (steps : List Step) (s : Step) (b : SigningBuilder) :
    run (steps ++ [s]) b = (run steps b).apply s := by
  rw [run, List.foldl_append]
  rfl

/-- The last step decides, unless it leaves the name alone. -/
theorem covers_concat_iff :
    Covers (steps ++ [s]) name ↔
      s.headerChange.Brings name ∨ Covers steps name ∧ ¬ s.headerChange.Drops name :=
  exists_last_concat_iff

/-- A builder without headers covers what the steps cover. -/
theorem mem_headers_run (h : b.config.components.headers = []) :
    name ∈ (run steps b).config.components.headers ↔ Covers steps name := by
  -- By induction from the last step, since a later step overrules those before it.
  induction steps using List.reverseRecOn with
  | nil =>
      rw [run, List.foldl_nil, h]
      refine ⟨fun hmem => absurd hmem List.not_mem_nil, ?_⟩
      rintro ⟨before, s, after, heq, -⟩
      exact absurd heq.symm (List.append_ne_nil_of_right_ne_nil _ (List.cons_ne_nil _ _))
  | append_singleton steps s ih => rw [run_concat, mem_headers_apply, covers_concat_iff, ih]

/-- No step takes a name from the required ones. -/
theorem mem_requiredHeaders_apply :
    name ∈ (b.apply s).config.requiredHeaders ↔
      name ∈ b.config.requiredHeaders ∨ ∃ n, s = .requireHeader n ∧ n.lower = name := by
  have hkeep {s : Step} (hs : ∀ n, s ≠ .requireHeader n) : name ∈ b.config.requiredHeaders ↔
      name ∈ b.config.requiredHeaders ∨ ∃ n, s = .requireHeader n ∧ n.lower = name :=
    ⟨Or.inl, fun h => h.elim id fun ⟨n, hn, _⟩ => absurd hn (hs n)⟩
  cases s with
  | requireHeader n =>
      have hmem : name ∈ (requireHeader n b.config).requiredHeaders ↔
          name ∈ b.config.requiredHeaders ∨ n.lower = name := by
        rw [requireHeader]
        split
        · next hlisted =>
          rw [List.contains_iff_mem] at hlisted
          refine ⟨Or.inl, fun h => h.elim id fun heq => ?_⟩
          rw [← heq]
          exact hlisted
        · rw [List.mem_append, List.mem_singleton, eq_comm (a := name)]
      refine hmem.trans (or_congr_right ⟨fun h => ⟨n, rfl, h⟩, ?_⟩)
      rintro ⟨n', heq, hname⟩
      rw [Step.requireHeader.inj heq]
      exact hname
  | profile | headers | addHeader | keyId | rawKey | privateKey | method | targetUri
  | contentDigest | strictHeaders | label | nonces | timestamps => exact hkeep nofun

/-- The required headers are those of the steps that require one. -/
theorem mem_requiredHeaders_run (h : b.config.requiredHeaders = []) :
    name ∈ (run steps b).config.requiredHeaders ↔
      ∃ n, Step.requireHeader n ∈ steps ∧ n.lower = name := by
  -- Here the order does not matter, but the last step is the one that is applied.
  induction steps using List.reverseRecOn with
  | nil =>
      rw [run, List.foldl_nil, h]
      exact ⟨fun hmem => absurd hmem List.not_mem_nil,
        fun ⟨n, hmem, _⟩ => absurd hmem List.not_mem_nil⟩
  | append_singleton steps s ih =>
      rw [run_concat, mem_requiredHeaders_apply, ih]
      simp only [List.mem_append, List.mem_singleton, or_and_right, exists_or, eq_comm (b := s)]

/-- A finished configuration covers and requires what the builder does. -/
theorem build_eq_ok (h : b.build = .ok c) :
    c.components = b.config.components ∧ c.requiredHeaders = b.config.requiredHeaders := by
  have hkeyed : b.keyed = .ok c := by
    rw [build] at h
    split at h
    · cases h
    · next c' hc' =>
      rcases map_eq_ok.1 h with ⟨_, -, rfl⟩
      exact hc'
  -- A key that was given as bytes is read now; nothing else of the configuration changes.
  rw [keyed] at hkeyed
  split at hkeyed
  · rw [← Except.ok.inj hkeyed]
    exact ⟨rfl, rfl⟩
  · rcases map_eq_ok.1 hkeyed with ⟨key, -, rfl⟩
    exact ⟨rfl, rfl⟩

end SigningBuilder

namespace Signer

variable {suite : Suite} {s : Signer} {o : SigningOptions} {m : Message} {cm : CanonicalMessage}
  {r : SigningResult} {w : World}

/-- A header that the components list is left out only if what is signed lacks it. -/
theorem mem_covered_of_required (h : IsSignature suite s o m cm r) {name : Bytes}
    (hcovered : name ∈ (s.components o).headers)
    (hthere : ((s.prepared o m).header name).isSome = true) : name ∈ cm.covered := by
  rcases map_eq_ok.1 h.canonical with ⟨values, hvalues, rfl⟩
  -- The list is the components without the headers that are absent, in the same order.
  have hnames := CanonicalMessage.names_componentValues hvalues
  have hemitted : name ∈ values.map (·.1) := by
    rw [hnames]
    exact List.mem_append_left _ (List.mem_append_right _ (List.mem_filter.2 ⟨hcovered, hthere⟩))
  exact hemitted

end Signer

namespace SigningBuilder

/-- A header is required, and then a profile is chosen that does not cover it. The configuration
is valid, and a request that has the header is signed without it. -/
theorem required_header_not_signed :
    let name : Bytes := "date"
    let steps : List Step :=
      [.keyId "k", .privateKey Sample.key, .requireHeader name, .profile .minimal]
    let o : SigningOptions := { nonce := some Sample.nonce, created := some 1700000000 }
    let w : World := { clock := ⟨0, 0⟩, random := fun _ => .zero 16 }
    ∃ c s r, (run steps initial).build = .ok c ∧ name ∈ c.requiredHeaders ∧
      name ∉ c.components.headers ∧ Signer.create c = .ok s ∧ o.components = none ∧
      (s.sign Sample.suite Sample.request o w).1 = .ok r ∧
      r.headers.find? "signature-input"
        = some ("sig1=" ++ r.params.render ["@method", "@target-uri"]) := by
  intro name steps o w
  let c := (run steps initial).config
  let s : Signer := ⟨c, Sample.key⟩
  have hsigned : (s.sign Sample.suite Sample.request o w).1.isOk = true := rfl
  rcases exists_ok_of_isOk hsigned with ⟨r, hr⟩
  rcases Signer.sign_eq_ok hr with ⟨cm, hsignature⟩
  -- The profile covers the method and the target, and nothing was covered after it.
  have hcovered : cm.covered = [("@method" : Bytes), "@target-uri"] := by
    have hcanonical : .ok (CanonicalMessage.ofLines [("@method", "GET"), ("@target-uri", "/")]
        r.params) = Except.ok cm := hsignature.canonical
    rw [← Except.ok.inj hcanonical]
    rfl
  have hinput := hsignature.find?_signatureInput
  rw [hcovered] at hinput
  exact ⟨c, s, r, rfl, by decide, by decide, rfl, rfl, hr, hinput⟩

/-- A header that a finished configuration requires is covered exactly if some step brought it
and no later one dropped it, where the standard profile is the first step. Every signature under
the configuration, made without other components, lists each required header that is covered. -/
theorem signs_required (suite : Suite) {steps : List Step} {c : SigningConfig}
    (hbuild : (run steps initial).build = .ok c) :
    (∀ name, name ∈ c.requiredHeaders ↔ ∃ n, Step.requireHeader n ∈ steps ∧ n.lower = name) ∧
    (∀ name, name ∈ c.components.headers ↔ Covers (.profile .standard :: steps) name) ∧
    ∀ s o m w r, Signer.create c = .ok s → o.components = none →
      (s.sign suite m o w).1 = .ok r →
      ∃ covered, r.headers.find? "signature-input"
          = some (c.label ++ Ascii.equals :: r.params.render covered) ∧
        ∀ name ∈ c.requiredHeaders, Covers (.profile .standard :: steps) name →
          name ∈ covered := by
  rcases build_eq_ok hbuild with ⟨hcomponents, hrequired⟩
  have hcovers (name : Bytes) :
      name ∈ c.components.headers ↔ Covers (.profile .standard :: steps) name := by
    -- The builder begins with nothing but the standard profile.
    have hfirst : run steps initial = run (.profile .standard :: steps) ⟨{}, none⟩ := rfl
    rw [hcomponents, hfirst]
    exact mem_headers_run rfl
  refine ⟨fun name => ?_, hcovers, fun s o m w r hs ho hr => ?_⟩
  · rw [hrequired]
    exact mem_requiredHeaders_run rfl
  · rcases Signer.create_eq_ok hs with ⟨rfl, -⟩
    have hthere := Signer.isSome_header_of_signWith (Signer.signWith_of_sign hr)
    rcases Signer.sign_eq_ok hr with ⟨cm, hsignature⟩
    -- A header that is covered is left out only if it is not there, and this one is.
    refine ⟨cm.covered, hsignature.find?_signatureInput, fun name hname hkept => ?_⟩
    refine Signer.mem_covered_of_required hsignature ?_ (hthere name hname)
    rw [Signer.components, ho, Option.getD_none, hcovers]
    exact hkept

/-- A header that a profile dropped after it was required, and that was added again after that,
is signed. -/
theorem signs_required_added_again :
    let name : Bytes := "date"
    let steps : List Step := [.keyId "k", .privateKey Sample.key, .requireHeader "Date",
      .profile .minimal, .addHeader "DATE"]
    let o : SigningOptions := { nonce := some Sample.nonce, created := some 1700000000 }
    let w : World := { clock := ⟨0, 0⟩, random := fun _ => .zero 16 }
    ∃ c s r covered, (run steps initial).build = .ok c ∧ Signer.create c = .ok s ∧
      o.components = none ∧ (s.sign Sample.suite Sample.request o w).1 = .ok r ∧
      name ∈ c.requiredHeaders ∧ name ∈ c.components.headers ∧
      r.headers.find? "signature-input"
        = some (c.label ++ Ascii.equals :: r.params.render covered) ∧ name ∈ covered := by
  intro name steps o w
  let c := (run steps initial).config
  let s : Signer := ⟨c, Sample.key⟩
  have hbuild : (run steps initial).build = .ok c := rfl
  have hsigned : (s.sign Sample.suite Sample.request o w).1.isOk = true := rfl
  rcases exists_ok_of_isOk hsigned with ⟨r, hr⟩
  rcases signs_required Sample.suite hbuild with ⟨hrequired, hcovers, hlists⟩
  have hname : name ∈ c.requiredHeaders := (hrequired name).2 ⟨"Date", by simp [steps], rfl⟩
  have hkept : Covers (.profile .standard :: steps) name :=
    ⟨.profile .standard :: steps.dropLast, .addHeader "DATE", [], rfl, rfl,
      fun t ht => absurd ht List.not_mem_nil⟩
  rcases hlists s o Sample.request w r rfl rfl hr with ⟨covered, hinput, hall⟩
  exact ⟨c, s, r, covered, hbuild, rfl, rfl, hr, hname, (hcovers name).2 hkept, hinput,
    hall name hname hkept⟩

end SigningBuilder

end SignedHttp
