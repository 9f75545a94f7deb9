import SignedHttp.Proofs.Signing.Written

/-!
# Messages With a Signature

The headers of a signature come last in the message that they are applied to, and each
takes the place of one of the same name. So the message with the signature agrees with
the message that was signed in every header except those that the signature brings
(`header_apply`), and with the one that was given also in method, URL and body.

Such a message may be signed again. If nothing is drawn and the components list none of
the headers that the signature brings, the second signature is the first one: the content
type that may have been added is there now and is not added again, what is listed has the
value that it had, and what is required is still there. The second signature brings no
header that the first one did not bring, with the same values, so that applying it
changes nothing (`sign_apply_sign`).

## Main definitions

* `ownHeaders`: The headers that a signature brings, besides a content type.

## Theorems

* `header_apply`: The headers of a message with a signature.
* `prepared_apply`, `canonical_of_apply`: What is signed when it is signed again.
* `isSome_header_apply`: What was there is still there.
* `carried_within`: What the second signature carries the first one carried.
* `sign_apply_sign`: Signing again.
-/

namespace SignedHttp

/-- The headers that a signature brings, besides a content type. -/
def ownHeaders : List Bytes := ["signature", "signature-input", "content-digest"]

/-- A name outside that list is the name of no header that a signature brings, in whatever case it
is written. -/
theorem sameName_of_not_mem_ownHeaders {name : Bytes} (h : name.lower ∉ ownHeaders) :
    sameName name "signature" = false ∧ sameName name "signature-input" = false ∧
      sameName name "content-digest" = false := by
  simp only [ownHeaders, List.mem_cons, List.not_mem_nil, or_false, not_or] at h
  exact ⟨beq_false_of_ne h.1, beq_false_of_ne h.2.1, beq_false_of_ne h.2.2⟩

namespace Signer

variable {suite : Suite} {s : Signer} {o : SigningOptions} {m : Message} {c : CanonicalMessage}
  {r : SigningResult}

/-- A message with a content type of its own gets none. -/
theorem addedContentType_eq_empty {m : Message} {c : Components}
    (h : m.hasBody = true → c.coversHeader "content-type" = true → m.contentType.isSome = true) :
    addedContentType m c = {} := by
  rw [addedContentType, if_neg]
  -- The three conditions under which one is added contradict the hypothesis.
  intro hadd
  rw [Bool.and_eq_true, Bool.and_eq_true, Option.isNone_iff_eq_none] at hadd
  rcases hadd with ⟨⟨hbody, hnone⟩, hcovers⟩
  have hsome := h hbody hcovers
  rw [hnone] at hsome
  exact Bool.noConfusion hsome

/-- What is signed has the headers of the message, and a content type if one was added. -/
theorem header_prepared {name : Bytes} : (s.prepared o m).header name
    = ((addedContentType m (s.components o)).find? name).or (m.header name) :=
  Fields.find?_setAll (distinct_addedContentType m _) name

namespace IsSignature

/-- What the signature brings hides what the message had under the same name. -/
theorem find?_apply (h : IsSignature suite s o m c r) (name : Bytes) :
    (r.apply m).headers.find? name = (r.headers.find? name).or (m.headers.find? name) :=
  Fields.find?_setAll h.distinct_headers name

/-- A header that the signature does not bring is that of the message that was signed. -/
theorem header_apply (h : IsSignature suite s o m c r) {name : Bytes}
    (hname : name.lower ∉ ownHeaders) :
    (r.apply m).header name = (s.prepared o m).header name := by
  rcases sameName_of_not_mem_ownHeaders hname with ⟨hsignature, hinput, hdigest⟩
  rw [Message.header, h.find?_apply, h.find?_other hinput hsignature, find?_carried_other hdigest]
  exact header_prepared.symm

/-- What is signed has a content type if it has a body and the content type is covered. -/
theorem isSome_contentType_apply (h : IsSignature suite s o m c r) (hbody : m.hasBody = true)
    (hcovers : (s.components o).coversHeader "content-type" = true) :
    (r.apply m).contentType.isSome = true := by
  rw [Message.contentType, h.header_apply (by decide), header_prepared, Option.isSome_or,
    Bool.or_eq_true]
  -- A message without a content type is one that gets it.
  cases htype : m.contentType with
  | some value =>
      rw [Message.contentType] at htype
      exact Or.inr (by rw [htype]; rfl)
  | none =>
      rw [addedContentType, hbody, hcovers, htype]
      exact Or.inl rfl

/-- Nothing is added to a message that was signed when it is signed again. -/
theorem addedContentType_apply (h : IsSignature suite s o m c r) :
    addedContentType (r.apply m) (s.components o) = {} :=
  addedContentType_eq_empty h.isSome_contentType_apply

/-- A message that was signed is prepared already: it is signed as it stands. -/
theorem prepared_apply (h : IsSignature suite s o m c r) :
    s.prepared o (r.apply m) = r.apply m := by
  rw [prepared, h.addedContentType_apply]
  rfl

/-- The text that is signed is the same the second time, if none of what the signature brings is
listed. -/
theorem canonical_of_apply (h : IsSignature suite s o m c r)
    (hown : ∀ name ∈ (s.components o).headers, name.lower ∉ ownHeaders) (p : Params) :
    s.canonical o (r.apply m) p = s.canonical o m p := by
  rw [Signer.canonical, Signer.canonical, h.prepared_apply]
  exact CanonicalMessage.ofComponents_congr (a := r.apply m) (b := s.prepared o m) rfl rfl rfl
    (fun name hname => h.header_apply (hown name hname)) p

/-- A header that was there is still there, if with another value. -/
theorem isSome_header_apply (h : IsSignature suite s o m c r) {name : Bytes}
    (hname : ((s.prepared o m).header name).isSome = true) :
    ((r.apply m).header name).isSome = true := by
  rw [header_prepared, Option.isSome_or, Bool.or_eq_true] at hname
  rw [Message.header, h.find?_apply, Option.isSome_or, Bool.or_eq_true]
  -- An added header is carried, and what is set after it takes at most its value.
  refine hname.imp_left fun hadded => ?_
  rw [h.headers, finish, carried]
  refine Fields.isSome_find?_set (Fields.isSome_find?_set ?_ _ _) _ _
  split
  · exact Fields.isSome_find?_set hadded _ _
  · exact hadded

/-- What a signature carries when it is made again it carried before. -/
theorem carried_within (h : IsSignature suite s o m c r) :
    (s.carried o (r.apply m)).Within (s.carried o m) := by
  -- The digest is of the body, which stays the same, so only the content type may fall away.
  have hdigest : s.digest? o (r.apply m) = s.digest? o m := rfl
  rw [carried, carried, hdigest, h.addedContentType_apply]
  split
  · exact (Fields.empty_within _).set _ _
  · exact Fields.empty_within _

end IsSignature

theorem distinct_made {p : Params} : (s.made suite o m p c).headers.Distinct :=
  (distinct_carried.set _ _).set _ _

/-- Signing again what carries a signature gives the same signature, and applying it changes
nothing. -/
theorem sign_apply_sign {w : World} (ho : o.isDeterministic = true)
    (hown : ∀ name ∈ (s.components o).headers, name.lower ∉ ownHeaders)
    (hr : (s.sign suite m o w).1 = .ok r) (w' : World) :
    ∃ r', (s.sign suite (r.apply m) o w').1 = .ok r' ∧
      (r'.signature = r.signature ∧ r'.signatureInput = r.signatureInput ∧
        r'.canonicalMessage = r.canonicalMessage ∧ r'.params = r.params) ∧
      (r'.apply (r.apply m)).method = (r.apply m).method ∧
      (r'.apply (r.apply m)).url = (r.apply m).url ∧
      (r'.apply (r.apply m)).body = (r.apply m).body ∧
      ∀ name, (r'.apply (r.apply m)).header name = (r.apply m).header name ∧
        (r'.apply (r.apply m)).headers.values name = (r.apply m).headers.values name := by
  rcases sign_eq_ok hr with ⟨_, h⟩
  rcases sign_eq_ok_iff.1 hr with ⟨hsome, hwith⟩
  rcases signWith_eq_ok_iff.1 hwith with ⟨hnonce, hcreated, hrequired, c, hc, hmade⟩
  -- Every step of signing looks at something that the first signature left as it was.
  have hagain : s.signWith suite (s.drawParams o w').1 (r.apply m) o
      = .ok (s.made suite o (r.apply m) (s.drawParams o w).1 c) := by
    rw [drawParams_of_isDeterministic ho w' w]
    refine signWith_eq_ok_iff.2 ⟨hnonce, hcreated, fun name hname => ?_, c, ?_, rfl⟩
    · rw [h.prepared_apply]
      exact h.isSome_header_apply (hrequired name hname)
    · rw [h.canonical_of_apply hown]
      exact hc
  -- To set the same values again under the same names changes none of them.
  have hvalues : ∀ name, ((s.made suite o (r.apply m) (s.drawParams o w).1 c).apply
      (r.apply m)).headers.values name = (r.apply m).headers.values name := by
    intro name
    refine Fields.values_setAll_within h.distinct_headers distinct_made ?_ name m.headers
    -- Both signatures set the same two headers, each behind what it carries.
    rw [congrArg SigningResult.headers hmade]
    exact (h.carried_within.set _ _).set _ _
  refine ⟨_, sign_eq_ok_iff.2 ⟨hsome, hagain⟩, ?_, rfl, rfl, rfl, fun name => ⟨?_, hvalues name⟩⟩
  · rw [hmade]
    exact ⟨rfl, rfl, rfl, rfl⟩
  · rw [Message.header, Message.header, ← Fields.head?_values, ← Fields.head?_values, hvalues]

/-- A body that comes without a content type gets one with the first signature, and a field that
the message has twice keeps both of its values. -/
theorem sign_apply_sign_post :
    let suite : Suite :=
      ⟨fun key => key, fun _ _ => ⟨List.replicate 64 0, rfl⟩, fun _ _ _ => true, fun text => text⟩
    let key : PrivateKey := ⟨List.replicate 32 1, rfl⟩
    let s : Signer :=
      ⟨{ keyId := "key-1", privateKey := some key, requiredHeaders := ["content-type", "via"]
         components := .create true true ["content-type", "via", "accept"] true }, key⟩
    let m : Message := ⟨.post, "http://h/", ⟨[("Via", "a"), ("Via", "b")]⟩, some "\x7b\x7d"⟩
    let o : SigningOptions :=
      { nonce := some "3fa85f64-5717-4562-b3fc-2c963f66afa6", created := some 1700000000 }
    let w (seconds : Int) : World :=
      { clock := ⟨seconds, 0⟩, random := fun _ => ⟨List.replicate 16 0, rfl⟩ }
    (o.isDeterministic = true ∧ ∀ name ∈ (s.components o).headers, name.lower ∉ ownHeaders) ∧
    ∃ r r', (s.sign suite m o (w 0)).1 = .ok r ∧
      (s.sign suite (r.apply m) o (w 60)).1 = .ok r' ∧ r'.signatureInput = r.signatureInput ∧
      (r'.apply (r.apply m)).headers.values "via" = (r.apply m).headers.values "via" ∧
      (r.apply m).headers.values "via" = (["a", "b"] : List Bytes) ∧
      r.headers.find? "content-type" = some (Bytes.ofString "application/json") := by
  intro suite key s m o w
  have hown : ∀ name ∈ (s.components o).headers, name.lower ∉ ownHeaders := by decide
  rcases exists_ok_of_isOk (show (s.sign suite m o (w 0)).1.isOk = true from rfl) with ⟨r, hr⟩
  rcases sign_apply_sign rfl hown hr (w 60) with ⟨r', hr', ⟨-, hinput, -, -⟩, -, -, -, hheaders⟩
  have hbrought : (s.sign suite m o (w 0)).1.map (fun r =>
      ((r.apply m).headers.values "via", r.headers.find? "content-type"))
      = .ok (["a", "b"], some "application/json") := rfl
  rw [hr] at hbrought
  have hpair := Prod.mk.inj (Except.ok.inj hbrought)
  exact ⟨⟨rfl, hown⟩, r, r', hr, hr', hinput, (hheaders "via").2, hpair.1, hpair.2⟩

end Signer

end SignedHttp
