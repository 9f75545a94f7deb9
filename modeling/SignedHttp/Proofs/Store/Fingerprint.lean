import SignedHttp.Proofs.Text.Hex
import SignedHttp.Proofs.Text.Split
import SignedHttp.Store.Cache

/-!
# What a Fingerprint Tells Apart

The bytes whose hash identifies a request are its method, its URL, its headers and its body one
after the other, with separators between them and nothing that says where a part ends. So the
separators have to be recognized. They are if they occur in no part that they end: no bar in the
URL, no colon in the name of a header, no line feed in its value. The headers end at the bar
that begins no line, which asks that no name begins with a bar (`Message.Separable`). The body
comes last and may be anything. Then the bytes determine the request, up to what a fingerprint
is not meant to tell apart: the order of headers, the case of their names, and whether an empty
body is absent.

Nothing makes a request separable. `fingerprint_bar_url` and `fingerprint_bar_name` are requests
that differ in more than that and have the same fingerprint, whatever the hash: a bar at the end
of the URL could as well be the first byte of the body, and a header whose name begins with a
bar could be the beginning of the body too.

## Main definitions

* `Message.SameRequest`: What is signed of two messages is the same.
* `Message.Separable`: The separators occur in no part that they end.
* `Suite.Separates`: Two texts do not collide.

## Theorems

* `fingerprintText_inj`: The hashed bytes determine the request.
* `fingerprint_eq_iff`: Fingerprints are equal exactly for the same request.
* `fingerprint_bar_url`, `fingerprint_bar_name`: Requests that are confused.
-/

namespace SignedHttp

/-- The byte that separates the parts of a request. -/
abbrev Ascii.bar : UInt8 := 0x7c

/-- What is signed of the messages is the same: method, URL, the headers in any order and with
names in any case, and the body, where an absent one is empty. -/
structure Message.SameRequest (m₁ m₂ : Message) : Prop where
  method : m₁.method = m₂.method
  url : m₁.url = m₂.url
  headers : m₁.headers.lowered.Perm m₂.headers.lowered
  content : m₁.content = m₂.content

/-- A header field that is hashed to a line of its own, which does not look like the body. -/
structure SeparableField (field : Bytes × Bytes) : Prop where
  name : Ascii.colon ∉ field.1
  first : field.1.head? ≠ some Ascii.bar
  value : Ascii.lineFeed ∉ field.2

/-- The separators are found in the hashed bytes of the message. -/
structure Message.Separable (m : Message) : Prop where
  url : Ascii.bar ∉ m.url
  field : ∀ field ∈ m.headers.lowered, SeparableField field

/-- The hash does not take two texts for one. -/
def Suite.Separates (suite : Suite) (s t : Bytes) : Prop :=
  suite.fingerprint s = suite.fingerprint t → s = t

theorem fieldLe_iff {a b : Bytes × Bytes} :
    fieldLe a b = true ↔ a.1 < b.1 ∨ (a.1 = b.1 ∧ a.2 ≤ b.2) := by
  simp only [fieldLe, Bool.or_eq_true, Bool.and_eq_true, decide_eq_true_eq, beq_iff_eq]

/-- The order of fields is transitive. -/
theorem fieldLe_trans (a b c : Bytes × Bytes) (hab : fieldLe a b = true)
    (hbc : fieldLe b c = true) : fieldLe a c = true := by
  rw [fieldLe_iff] at hab hbc ⊢
  rcases hab with hab | ⟨hab, hab'⟩
  · rcases hbc with hbc | ⟨hbc, -⟩
    · exact Or.inl (List.lt_trans hab hbc)
    · exact Or.inl (hbc ▸ hab)
  · rcases hbc with hbc | ⟨hbc, hbc'⟩
    · exact Or.inl (hab ▸ hbc)
    · exact Or.inr ⟨hab.trans hbc, List.le_trans hab' hbc'⟩

/-- Any two fields are in one order or the other. -/
theorem fieldLe_total (a b : Bytes × Bytes) : (fieldLe a b || fieldLe b a) = true := by
  rw [Bool.or_eq_true, fieldLe_iff, fieldLe_iff]
  by_cases hname : a.1 = b.1
  · rcases List.le_total a.2 b.2 with hvalue | hvalue
    · exact Or.inl (Or.inr ⟨hname, hvalue⟩)
    · exact Or.inr (Or.inr ⟨hname.symm, hvalue⟩)
  · by_cases hlt : a.1 < b.1
    · exact Or.inl (Or.inl hlt)
    · -- Names that are not in this order and not equal are in the other one.
      by_cases hgt : b.1 < a.1
      · exact Or.inr (Or.inl hgt)
      · exact absurd (List.le_antisymm hgt hlt) hname

/-- Fields that are in both orders are the same. -/
theorem fieldLe_antisymm {a b : Bytes × Bytes} (hab : fieldLe a b = true)
    (hba : fieldLe b a = true) : a = b := by
  rw [fieldLe_iff] at hab hba
  rcases hab with hab | ⟨hname, hab⟩
  · rcases hba with hba | ⟨hba, -⟩
    · exact absurd (List.lt_trans hab hba) (List.lt_irrefl _)
    · exact absurd (hba ▸ hab) (List.lt_irrefl _)
  · rcases hba with hba | ⟨-, hba⟩
    · exact absurd (hname ▸ hba) (List.lt_irrefl _)
    · exact Prod.ext hname (List.le_antisymm hab hba)

/-- Headers are sorted alike exactly if they are the same in some order. -/
theorem sortedHeaders_eq_iff {m₁ m₂ : Message} :
    sortedHeaders m₁ = sortedHeaders m₂ ↔ m₁.headers.lowered.Perm m₂.headers.lowered := by
  have hperm : ∀ m : Message, (sortedHeaders m).Perm m.headers.lowered :=
    fun m => List.mergeSort_perm _ _
  have hsorted : ∀ m, (sortedHeaders m).Pairwise fun a b => fieldLe a b = true :=
    fun m => List.pairwise_mergeSort fieldLe_trans fieldLe_total _
  constructor
  · intro h
    exact (hperm m₁).symm.trans (h ▸ hperm m₂)
  · -- There is one way to sort what is the same in some order.
    intro h
    exact List.Perm.eq_of_pairwise (fun a b _ _ => fieldLe_antisymm) (hsorted m₁) (hsorted m₂)
      ((hperm m₁).trans (h.trans (hperm m₂).symm))

/-- A hashed field, up to its separators. -/
theorem fingerprintLine_append (field : Bytes × Bytes) (rest : Bytes) :
    fingerprintLine field ++ rest
      = field.1 ++ Ascii.colon :: (field.2 ++ Ascii.lineFeed :: rest) := by
  simp only [fingerprintLine, List.append_assoc]
  rfl

/-- A field whose line is not a bar does not begin with one. -/
theorem fingerprintLine_ne_bar_cons {field : Bytes × Bytes} (h : SeparableField field)
    (rest t : Bytes) : fingerprintLine field ++ rest ≠ Ascii.bar :: t := by
  rw [fingerprintLine_append]
  intro heq
  rcases field with ⟨_ | ⟨b, name⟩, value⟩
  · -- Without a name the line begins with its colon.
    exact absurd (List.cons.inj heq).1 (by decide)
  · have hb : b = Ascii.bar := (List.cons.inj heq).1
    exact h.first (congrArg some hb)

/-- The lines of the fields and what follows the bar after them are found in the text. -/
theorem flatMap_fingerprintLine_inj {fs gs : List (Bytes × Bytes)} {s t : Bytes}
    (hfs : ∀ f ∈ fs, SeparableField f) (hgs : ∀ g ∈ gs, SeparableField g)
    (h : fs.flatMap fingerprintLine ++ Ascii.bar :: s
      = gs.flatMap fingerprintLine ++ Ascii.bar :: t) : fs = gs ∧ s = t := by
  induction fs generalizing gs with
  | nil =>
      cases gs with
      | nil => exact ⟨rfl, (List.cons.inj h).2⟩
      | cons g gs =>
          rw [List.flatMap_cons, List.append_assoc] at h
          exact absurd h.symm (fingerprintLine_ne_bar_cons (List.forall_mem_cons.1 hgs).1 _ _)
  | cons f fs ih =>
      rcases List.forall_mem_cons.1 hfs with ⟨hf, hfs⟩
      cases gs with
      | nil =>
          rw [List.flatMap_cons, List.append_assoc] at h
          exact absurd h (fingerprintLine_ne_bar_cons hf _ _)
      | cons g gs =>
          rcases List.forall_mem_cons.1 hgs with ⟨hg, hgs⟩
          -- A name ends at its first colon, a value at its first line feed.
          rw [List.flatMap_cons, List.flatMap_cons, List.append_assoc, List.append_assoc,
            fingerprintLine_append, fingerprintLine_append] at h
          rcases Bytes.append_cons_inj hf.name hg.name h with ⟨hname, h⟩
          rcases Bytes.append_cons_inj hf.value hg.value h with ⟨hvalue, h⟩
          rcases ih hfs hgs h with ⟨hrest, hbody⟩
          exact ⟨by rw [Prod.ext hname hvalue, hrest], hbody⟩

/-- The hashed bytes, up to their separators. -/
theorem fingerprintText_eq (m : Message) :
    fingerprintText m = m.method.text ++ Ascii.bar :: (m.url ++ Ascii.bar ::
      ((sortedHeaders m).flatMap fingerprintLine ++ Ascii.bar :: m.content)) := rfl

/-- The hashed bytes determine the request. -/
theorem fingerprintText_inj {m₁ m₂ : Message} (h₁ : m₁.Separable) (h₂ : m₂.Separable)
    (h : fingerprintText m₁ = fingerprintText m₂) : m₁.SameRequest m₂ := by
  have hmethod : ∀ method : Method, Ascii.bar ∉ method.text := by
    intro method
    cases method <;> decide
  have hfields : ∀ m : Message, m.Separable → ∀ f ∈ sortedHeaders m, SeparableField f :=
    fun m hm f hf => hm.field f ((List.mergeSort_perm _ _).mem_iff.1 hf)
  -- The parts are taken off one after the other, each up to its separator.
  rw [fingerprintText_eq, fingerprintText_eq] at h
  rcases Bytes.append_cons_inj (hmethod _) (hmethod _) h with ⟨htext, h⟩
  rcases Bytes.append_cons_inj h₁.url h₂.url h with ⟨hurl, h⟩
  rcases flatMap_fingerprintLine_inj (hfields m₁ h₁) (hfields m₂ h₂) h with ⟨hheaders, hbody⟩
  exact ⟨Method.text_injective htext, hurl, sortedHeaders_eq_iff.1 hheaders, hbody⟩

theorem fingerprintText_eq_of_sameRequest {m₁ m₂ : Message} (h : m₁.SameRequest m₂) :
    fingerprintText m₁ = fingerprintText m₂ := by
  rw [fingerprintText, fingerprintText, h.method, h.url, sortedHeaders_eq_iff.2 h.headers,
    h.content]

/-- Fingerprints are equal exactly for the same request, if the separators can be found and the
hash tells the two texts apart. -/
theorem fingerprint_eq_iff {suite : Suite} {m₁ m₂ : Message} (h₁ : m₁.Separable)
    (h₂ : m₂.Separable) (hhash : suite.Separates (fingerprintText m₁) (fingerprintText m₂)) :
    fingerprint suite m₁ = fingerprint suite m₂ ↔ m₁.SameRequest m₂ := by
  constructor
  · intro h
    exact fingerprintText_inj h₁ h₂ (hhash (Hex.encode_injective h))
  · intro h
    rw [fingerprint, fingerprint, fingerprintText_eq_of_sameRequest h]

/-- A bar at the end of the URL is taken for the first byte of the body. -/
theorem fingerprint_bar_url (suite : Suite) (method : Method) (url body : Bytes) :
    fingerprint suite ⟨method, url ++ [Ascii.bar], {}, some body⟩
      = fingerprint suite ⟨method, url, {}, some (Ascii.bar :: body)⟩ := by
  -- The same bytes are hashed, so the hash does not matter.
  have htext : fingerprintText ⟨method, url ++ [Ascii.bar], {}, some body⟩
      = fingerprintText ⟨method, url, {}, some (Ascii.bar :: body)⟩ := by
    simp [fingerprintText_eq, sortedHeaders, Fields.lowered, Message.content]
  rw [fingerprint, fingerprint, htext]

/-- A header whose name begins with a bar is taken for the beginning of the body. -/
theorem fingerprint_bar_name (suite : Suite) (method : Method) (url : Bytes)
    {name : Bytes} (hname : name.lower = name) (value body : Bytes) :
    fingerprint suite ⟨method, url, ⟨[(Ascii.bar :: name, value)]⟩, some body⟩
      = fingerprint suite
        ⟨method, url, {}, some (fingerprintLine (name, value) ++ Ascii.bar :: body)⟩ := by
  have hlower : Bytes.lower (Ascii.bar :: name) = Ascii.bar :: name := by
    rw [Bytes.lower, List.map_cons, ← Bytes.lower, hname]
    rfl
  have htext : fingerprintText ⟨method, url, ⟨[(Ascii.bar :: name, value)]⟩, some body⟩
      = fingerprintText
        ⟨method, url, {}, some (fingerprintLine (name, value) ++ Ascii.bar :: body)⟩ := by
    simp [fingerprintText_eq, sortedHeaders, Fields.lowered, Message.content, hlower,
      fingerprintLine]
  rw [fingerprint, fingerprint, htext]

end SignedHttp
