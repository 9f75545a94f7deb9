import SignedHttp.Proofs.Except
import SignedHttp.Proofs.Signature.Canonical

/-!
# What Is Covered

The signer makes the named values of a canonical message from its components, the
verifier from the names that were sent. The two sides meet in `ComponentValue`, which
says what a component stands for without saying how it is looked up: the method, the
target of the URL, the digest header as it was sent, or the value of a header.

The signer leaves out what the message does not have, so what it emits is always
there to be covered (`emittedValue_of_mem`). A message that agrees with the signed
one in method, URL, listed headers and digest therefore gives the verifier the same
values in the same order (`coveredValues_of_componentValues`), whatever else was
added to it.

## Main definitions

* `ComponentValue`: What a component of a message stands for.
* `EmittedValue`: What the signer emits of a message.

## Theorems

* `coveredValue_eq_ok_iff`: The value of a covered component is what it stands for.
* `coveredValues_eq_ok_iff`: The covered values are those of the components, in order.
* `emittedValue_of_mem`: What an emitted value is the value of.
* `names_componentValues`: The names that are emitted, in order.
* `ofComponents_congr`: What the signer looks at.
* `coveredValues_of_emitted`: What a message with the emitted facts gives the verifier.
* `coveredValues_of_componentValues`: What the signer emits is what the verifier covers.
-/

namespace SignedHttp

/-- What a component stands for in a message, where the digest may have been sent apart. -/
inductive ComponentValue (m : Message) (sent : Option Bytes) : Bytes → Bytes → Prop
  | method : ComponentValue m sent "@method" m.method.text
  | target {u : Url} : Url.parse? m.url = some u → ComponentValue m sent "@target-uri" u.target
  | digest {value : Bytes} : (sent <|> m.header "content-digest") = some value →
      ComponentValue m sent "content-digest" value
  | header {name value : Bytes} : name ≠ "content-digest" → name.head? ≠ some Ascii.atSign →
      m.header name = some value → ComponentValue m sent name value

/-- If the digest was sent with the message, then every component but those that are derived is a
header of it. -/
theorem ComponentValue.header_eq {m : Message} {name value : Bytes}
    (h : ComponentValue m (m.header "content-digest") name value)
    (hat : name.head? ≠ some Ascii.atSign) : m.header name = some value := by
  cases h with
  | method => exact absurd rfl hat
  | target _ => exact absurd rfl hat
  | digest hvalue =>
      rw [← hvalue]
      cases m.header "content-digest" <;> rfl
  | header _ _ hvalue => exact hvalue

/-- What the signer emits of a message, for some components and the value of a digest header. -/
inductive EmittedValue (m : Message) (c : Components) (digest : Bytes) : Bytes → Bytes → Prop
  | method : c.method = true → EmittedValue m c digest "@method" m.method.text
  | target {u : Url} : c.targetUri = true → Url.parse? m.url = some u →
      EmittedValue m c digest "@target-uri" u.target
  | header {name value : Bytes} : name ∈ c.headers → m.header name = some value →
      EmittedValue m c digest name value
  | digest : c.contentDigest = true → EmittedValue m c digest "content-digest" digest

namespace CanonicalMessage

/-- The verifier finds a value for a name exactly if the component has it. The names are tried in
the order of the cases: method, target, digest, other derived names, headers. -/
theorem coveredValue_eq_ok_iff {m : Message} {sent : Option Bytes} {name value : Bytes} :
    coveredValue m sent name = .ok value ↔ ComponentValue m sent name value := by
  constructor
  · intro h
    rw [coveredValue] at h
    split at h
    · next hname =>
      rw [hname, ← Except.ok.inj h]
      exact .method
    · split at h
      · next hname =>
        split at h
        · next u hu =>
          rw [hname, ← Except.ok.inj h]
          exact .target hu
        · cases h
      · split at h
        · next hname =>
          split at h
          · next v hv =>
            rw [hname] at hv ⊢
            rw [← Except.ok.inj h]
            exact .digest hv
          · cases h
        · next hdigest =>
          split at h
          · cases h
          · next hat =>
            split at h
            · next v hv =>
              rw [← Except.ok.inj h]
              exact .header hdigest hat hv
            · cases h
  · intro h
    rcases h with _ | hu | hv | ⟨hdigest, hat, hv⟩
    · rfl
    · rw [coveredValue, if_neg (by decide), if_pos rfl, hu]
    · rw [coveredValue, if_neg (by decide), if_neg (by decide), if_pos rfl, hv]
    · -- A name that begins with another byte is neither the method nor the target.
      rw [coveredValue, if_neg, if_neg, if_neg hdigest, if_neg hat, hv]
      · intro h
        subst h
        exact hat rfl
      · intro h
        subst h
        exact hat rfl

variable {m : Message} {sent : Option Bytes}

/-- The values of several names are there if each of them is. -/
theorem coveredValues_eq_ok_iff {covered : List Bytes} {values : List (Bytes × Bytes)} :
    coveredValues m sent covered = .ok values ↔
      values.map (·.1) = covered ∧ ∀ e ∈ values, coveredValue m sent e.1 = .ok e.2 := by
  -- By induction on the names; the first one that has no value ends the reading.
  induction covered generalizing values with
  | nil =>
      simp only [coveredValues, Except.ok.injEq, List.map_eq_nil_iff]
      constructor
      · intro h
        subst h
        exact ⟨rfl, fun e he => absurd he (List.not_mem_nil)⟩
      · intro h
        rcases h with ⟨rfl, -⟩
        rfl
  | cons name names ih =>
      constructor
      · intro h
        rw [coveredValues] at h
        split at h
        · cases h
        · next value hvalue =>
          rcases map_eq_ok.1 h with ⟨rest, hrest, rfl⟩
          rcases ih.1 hrest with ⟨hnames, hvalues⟩
          rw [List.map_cons, hnames, List.forall_mem_cons]
          exact ⟨rfl, hvalue, hvalues⟩
      · intro h
        rcases h with ⟨hnames, hvalues⟩
        cases values with
        | nil => cases hnames
        | cons e rest =>
            rcases List.cons.inj hnames with ⟨rfl, hrest⟩
            rw [List.forall_mem_cons] at hvalues
            rw [coveredValues, hvalues.1]
            exact map_eq_ok.2 ⟨rest, ih.2 ⟨hrest, hvalues.2⟩, rfl⟩

/-- Messages that agree in method, URL and the headers that are covered have the same values. -/
theorem coveredValues_congr {a b : Message} {covered : List Bytes} (hmethod : a.method = b.method)
    (hurl : a.url = b.url) (hheaders : ∀ name ∈ covered, a.header name = b.header name) :
    coveredValues a sent covered = coveredValues b sent covered := by
  induction covered with
  | nil => rfl
  | cons name names ih =>
      rw [List.forall_mem_cons] at hheaders
      simp only [coveredValues, coveredValue, hmethod, hurl, hheaders.1, ih hheaders.2]

/-- The name of the last line is no component that can be covered. -/
theorem coveredValue_paramsLineName (value : Bytes) :
    coveredValue m sent paramsLineName ≠ .ok value := by
  intro h
  generalize hname : paramsLineName = name at h
  cases coveredValue_eq_ok_iff.1 h with
  | method => exact absurd hname (by decide)
  | target _ => exact absurd hname (by decide)
  | digest _ => exact absurd hname (by decide)
  | header _ hat _ =>
      -- It begins with the sign that no header name begins with.
      rw [← hname] at hat
      exact absurd rfl hat

/-- The signer emits the headers that are there, in the order of the names. -/
theorem headerValues_eq_ok {strict : Bool} {names : List Bytes} {values : List (Bytes × Bytes)}
    (h : headerValues m strict names = .ok values) :
    values = names.filterMap fun name => (m.header name).map fun value => (name, value) := by
  -- A header that is missing is left out, or it ends the signing if the signer is strict.
  induction names generalizing values with
  | nil => exact (Except.ok.inj h).symm
  | cons name names ih =>
      rw [headerValues] at h
      split at h
      · next value hvalue =>
        rcases map_eq_ok.1 h with ⟨rest, hrest, rfl⟩
        rw [List.filterMap_cons_some (by rw [hvalue]; rfl), ih hrest]
      · next hnone =>
        split at h
        · cases h
        · rw [List.filterMap_cons_none (by rw [hnone]; rfl), ih h]

variable {c : Components} {d : Option ContentDigest} {strict : Bool}
  {values : List (Bytes × Bytes)}

/-- The digest header that stands for the body of a message. -/
def digestValue (m : Message) (d : Option ContentDigest) : Bytes :=
  (d.getD (.ofBody .sha256 m.body)).headerValue

/-- The emitted values are those of the method, of the target, of headers and of the digest. -/
theorem componentValues_eq_ok (h : componentValues m c d strict = .ok values) :
    ∃ target headers, headerValues m strict c.headers = .ok headers ∧
      target.map (·.1) = (if c.targetUri then [("@target-uri" : Bytes)] else []) ∧
      (∀ e ∈ target, EmittedValue m c (digestValue m d) e.1 e.2) ∧
      values = (if c.method then [(("@method" : Bytes), m.method.text)] else []) ++ target
        ++ headers ++ (if c.contentDigest then [(("content-digest" : Bytes), digestValue m d)]
          else []) := by
  rw [componentValues] at h
  -- Only the target can fail, if it is to be covered: the URL has to be read for it.
  split at h
  · next hcovered =>
    rcases bind_eq_ok.1 h with ⟨target, htarget, h⟩
    rcases bind_eq_ok.1 h with ⟨headers, hheaders, h⟩
    rcases map_eq_ok.1 htarget with ⟨t, ht, rfl⟩
    refine ⟨_, headers, hheaders, by rw [if_pos hcovered]; rfl, fun e he => ?_,
      (Except.ok.inj h).symm⟩
    rw [List.mem_singleton] at he
    rw [targetUri] at ht
    split at ht
    · next u hu =>
      rw [he, ← Except.ok.inj ht]
      exact .target hcovered hu
    · cases ht
  · next hcovered =>
    rcases bind_eq_ok.1 h with ⟨target, htarget, h⟩
    rcases bind_eq_ok.1 h with ⟨headers, hheaders, h⟩
    cases htarget
    refine ⟨[], headers, hheaders, by rw [if_neg hcovered]; rfl, fun e he => ?_,
      (Except.ok.inj h).symm⟩
    exact absurd he List.not_mem_nil

/-- Every value that the signer gives out is emitted in one of the four ways. -/
theorem emittedValue_of_mem (h : componentValues m c d strict = .ok values) :
    ∀ e ∈ values, EmittedValue m c (digestValue m d) e.1 e.2 := by
  rcases componentValues_eq_ok h with ⟨target, headers, hheaders, -, htarget, rfl⟩
  intro e he
  -- The values come in four parts, of which each emits in its own way.
  rw [List.mem_append, List.mem_append, List.mem_append] at he
  rcases he with ((he | he) | he) | he
  · rcases List.mem_ite_nil_right.1 he with ⟨hmethod, he⟩
    rw [List.mem_singleton.1 he]
    exact .method hmethod
  · exact htarget e he
  · rw [headerValues_eq_ok hheaders, List.mem_filterMap] at he
    rcases he with ⟨name, hname, he⟩
    rcases Option.map_eq_some_iff.1 he with ⟨value, hvalue, rfl⟩
    exact .header hname hvalue
  · rcases List.mem_ite_nil_right.1 he with ⟨hdigest, he⟩
    rw [List.mem_singleton.1 he]
    exact .digest hdigest

/-- Only headers that are listed make a difference. -/
theorem headerValues_congr {a b : Message} {names : List Bytes}
    (h : ∀ name ∈ names, a.header name = b.header name) :
    headerValues a strict names = headerValues b strict names := by
  induction names with
  | nil => rfl
  | cons name names ih =>
      rw [List.forall_mem_cons] at h
      simp only [headerValues, h.1, ih h.2]

/-- Messages that differ at most in headers that are not listed have the same canonical
message. -/
theorem ofComponents_congr {a b : Message} (hmethod : a.method = b.method) (hurl : a.url = b.url)
    (hbody : a.body = b.body) (hheaders : ∀ name ∈ c.headers, a.header name = b.header name)
    (p : Params) : ofComponents a c p d strict = ofComponents b c p d strict := by
  rw [ofComponents, ofComponents, componentValues, componentValues, hmethod, hurl, hbody,
    headerValues_congr hheaders]

/-- The names that are emitted: those that were chosen, of headers those that the message has. -/
theorem names_componentValues (h : componentValues m c d strict = .ok values) :
    values.map (·.1) = (if c.method then [("@method" : Bytes)] else [])
      ++ (if c.targetUri then [("@target-uri" : Bytes)] else [])
      ++ c.headers.filter (fun name => (m.header name).isSome)
      ++ (if c.contentDigest then [("content-digest" : Bytes)] else []) := by
  rcases componentValues_eq_ok h with ⟨target, headers, hheaders, htarget, -, rfl⟩
  -- A header is listed under its name exactly if it has a value.
  have hnames : headers.map (·.1) = c.headers.filter fun name => (m.header name).isSome := by
    rw [headerValues_eq_ok hheaders, List.map_filterMap, ← List.filterMap_eq_filter]
    congr 1
    funext name
    cases hvalue : m.header name <;> simp [Option.guard, hvalue]
  simp only [List.map_append, htarget, hnames]
  congr 1
  · congr 2
    split <;> rfl
  · split <;> rfl

/-- A message that has the method, the target and the headers that were emitted of another one
has the same values under their names, if the digest is sent as it was emitted. -/
theorem coveredValues_of_emitted {a : Message} {digest : Bytes}
    (h : ∀ e ∈ values, EmittedValue m c digest e.1 e.2) (hmethod : a.method = m.method)
    (htarget : ∀ t, targetUri m.url = .ok t → targetUri a.url = .ok t)
    (hnames : ∀ name ∈ c.headers, name ≠ "content-digest" ∧ name.head? ≠ some Ascii.atSign)
    (hheaders : ∀ name ∈ c.headers, ∀ value, m.header name = some value →
      a.header name = some value)
    (hdigest : c.contentDigest = true → sent = some digest) :
    coveredValues a sent (values.map (·.1)) = .ok values := by
  -- What was emitted under a name is what the name stands for in the other message.
  refine coveredValues_eq_ok_iff.2 ⟨rfl, fun e he => coveredValue_eq_ok_iff.2 ?_⟩
  rcases e with ⟨name, value⟩
  cases h (name, value) he with
  | method _ =>
      rw [← hmethod]
      exact .method
  | @target u _ hu =>
      -- The URL may be another one, as long as it has the same target.
      have ht := htarget u.target (by rw [targetUri, hu])
      rw [targetUri] at ht
      split at ht
      · next v hv =>
        have hvalue : ComponentValue a sent "@target-uri" v.target := .target hv
        rw [Except.ok.inj ht] at hvalue
        exact hvalue
      · cases ht
  | header hname hvalue =>
      exact .header (hnames name hname).1 (hnames name hname).2 (hheaders name hname value hvalue)
  | digest hcovered =>
      rw [hdigest hcovered]
      exact .digest rfl

/-- A message that agrees with the signed one in what is emitted has the values that were
signed, and in the same order. -/
theorem coveredValues_of_componentValues {a : Message}
    (h : componentValues m c d strict = .ok values) (hmethod : a.method = m.method)
    (hurl : a.url = m.url)
    (hnames : ∀ name ∈ c.headers, name ≠ "content-digest" ∧ name.head? ≠ some Ascii.atSign)
    (hheaders : ∀ name ∈ c.headers, a.header name = m.header name)
    (hdigest : c.contentDigest = true → sent = some (digestValue m d)) :
    coveredValues a sent (values.map (·.1)) = .ok values :=
  coveredValues_of_emitted (emittedValue_of_mem h) hmethod (fun _ ht => hurl ▸ ht) hnames
    (fun name hname _ hvalue => (hheaders name hname).trans hvalue) hdigest

end CanonicalMessage

end SignedHttp
