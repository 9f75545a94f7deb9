import SignedHttp.Proofs.Crypto.Suite
import SignedHttp.Proofs.Signing.Signer
import SignedHttp.Proofs.Text.Hex

/-!
# Nonces Are the Generated Texts

A nonce is made by setting six bits of sixteen random bytes, writing the bytes in
hexadecimal and putting hyphens between the digits. It is checked byte by byte, each by
what its place admits. Here is why the two agree, and what becomes of the randomness.

Both are read place by place. The digits of a UUID stand at the places that are no
hyphens (`getElem?_group`), so what a place admits is asked of a digit (`admitsDigit`),
and a digit is half of a byte. The check asks for the version in the thirteenth digit
and for the variant in the seventeenth, which are the upper halves of the bytes whose
bits are set. Setting them changes nothing if they are set already, so every text that
is admitted is generated from the bytes that its digits stand for. It may be written in
upper case, which the generator does not do.

A bit that is not set is kept (`testBit_stamped`). All other steps are injective, so six
bits are lost and nothing else.

## Main definitions

* `Uuid.digitAt`, `Uuid.placeOf`: The digit at a place, and the place of a digit.
* `Uuid.admitsDigit`: What a digit may be.
* `Uuid.stamped`: A byte with its fixed bits set.
* `Uuid.IsFixed`: The bits of the version and of the variant.

## Theorems

* `isValidNonce_group`, `exists_group`: What is asked of the digits, and that there are digits.
* `isValidNonce_uuid`, `exists_uuid_eq_lower`: What is generated is admitted, and conversely.
* `uuid_eq_iff`: Which bytes give the same nonce.
* `uuid_exact`: Generated nonces are the admissible ones, and keep all bits but six.
-/

namespace SignedHttp

/-- A bit of a byte, counted from the least one. -/
def Octets.bit {n : Nat} (o : Octets n) (place index : Nat) : Bool :=
  (o.bytes.getD place 0).toNat.testBit index

theorem Octets.getElem?_bytes {n place : Nat} (o : Octets n) (h : place < n) :
    o.bytes[place]? = some (o.bytes.getD place 0) := by
  have hplace : place < o.bytes.length := by rw [o.length_eq]; exact h
  rw [List.getElem?_eq_getElem hplace, List.getElem_eq_getD]

/-- Bytes are equal if all their bits are. -/
theorem Ascii.eq_iff_testBit {a b : UInt8} :
    a = b ↔ ∀ index < 8, a.toNat.testBit index = b.toNat.testBit index := by
  constructor
  · rintro rfl index -
    rfl
  · intro h
    refine UInt8.toNat_inj.1 (Nat.eq_of_testBit_eq fun index => ?_)
    by_cases hindex : index < 8
    · exact h index hindex
    · have hzero : ∀ c : UInt8, c.toNat.testBit index = false := fun c =>
        Nat.testBit_lt_two_pow (lt_of_lt_of_le c.toNat_lt
          (Nat.pow_le_pow_right Nat.two_pos (Nat.not_lt.1 hindex)))
      rw [hzero, hzero]

namespace Uuid

/-- The places of the hyphens. -/
abbrev IsHyphen (place : Nat) : Prop := place = 8 ∨ place = 13 ∨ place = 18 ∨ place = 23

/-- Which digit stands at a place that is no hyphen. -/
def digitAt (place : Nat) : Nat :=
  if place < 8 then place else if place < 13 then place - 1 else if place < 18 then place - 2
  else if place < 23 then place - 3 else place - 4

/-- The place of a digit. -/
def placeOf (i : Nat) : Nat :=
  if i < 8 then i else if i < 12 then i + 1 else if i < 16 then i + 2
  else if i < 20 then i + 3 else i + 4

/-- What a digit may be: the version, the variant, or any digit. -/
def admitsDigit (i : Nat) (b : UInt8) : Bool :=
  if i = 12 then b == 0x34
  else if i = 16 then (Bytes.ofString "89abAB").contains b
  else Ascii.isHexDigit b

/-- A byte with the version or the variant set, if it is at the place of one. -/
def stamped (place : Nat) (b : UInt8) : UInt8 :=
  if place = 6 then b &&& 0x0f ||| 0x40 else if place = 8 then b &&& 0x3f ||| 0x80 else b

/-- The four bits of the version and the two of the variant. -/
abbrev IsFixed (place index : Nat) : Prop := place = 6 ∧ 4 ≤ index ∨ place = 8 ∧ 6 ≤ index

/-- Every digit has a place, and it is not that of a hyphen. -/
theorem digitAt_placeOf (i : Nat) : ¬ IsHyphen (placeOf i) ∧ digitAt (placeOf i) = i := by
  unfold IsHyphen placeOf digitAt
  split_ifs <;> omega

/-- Every place but those of the hyphens is the place of a digit. -/
theorem placeOf_digitAt {place : Nat} (h : ¬ IsHyphen place) : placeOf (digitAt place) = place := by
  unfold IsHyphen at h
  unfold placeOf digitAt
  split_ifs <;> omega

theorem digitAt_eq_iff {place i : Nat} (h : ¬ IsHyphen place) :
    place = placeOf i ↔ digitAt place = i :=
  ⟨fun hplace => by rw [hplace, (digitAt_placeOf i).2], fun hi => by rw [← hi, placeOf_digitAt h]⟩

theorem digitAt_lt_iff {place : Nat} : digitAt place < 32 ↔ place < 36 := by
  unfold digitAt
  split_ifs <;> omega

theorem admits_of_isHyphen {place : Nat} {b : UInt8} (h : IsHyphen place) :
    admits place b = (b == Ascii.minus) := by
  rw [admits, if_pos h]

theorem admits_eq_admitsDigit {place : Nat} {b : UInt8} (h : ¬ IsHyphen place) :
    admits place b = admitsDigit (digitAt place) b := by
  have hversion : place = 14 ↔ digitAt place = 12 := digitAt_eq_iff (i := 12) h
  have hvariant : place = 19 ↔ digitAt place = 16 := digitAt_eq_iff (i := 16) h
  rw [admits, if_neg h, admitsDigit]
  simp only [hversion, hvariant]

/-- What stands at a place of a beginning with a byte and a text behind it. -/
theorem getElem?_take_append_cons {s : Bytes} {n : Nat} (h : n ≤ s.length) (b : UInt8) (t : Bytes)
    (place : Nat) :
    (s.take n ++ b :: t)[place]?
      = if place < n then s[place]? else if place = n then some b else t[place - (n + 1)]? := by
  rw [List.getElem?_append, List.length_take_of_le h]
  split
  · next hbefore => rw [List.getElem?_take_of_lt hbefore]
  · split
    · next hat => rw [hat, Nat.sub_self, List.getElem?_cons_zero]
    · next hbefore hat =>
      rw [show place - n = place - (n + 1) + 1 by omega, List.getElem?_cons_succ]

/-- Hyphens stand at their places, and the digits in order at the others. -/
theorem getElem?_group {digits : Bytes} (h : digits.length = 32) (place : Nat) :
    (group digits)[place]?
      = if IsHyphen place then some Ascii.minus else digits[digitAt place]? := by
  rw [group, getElem?_take_append_cons (by omega),
    getElem?_take_append_cons (by rw [List.length_drop]; omega),
    getElem?_take_append_cons (by rw [List.length_drop]; omega),
    getElem?_take_append_cons (by rw [List.length_drop]; omega)]
  -- What is left is a case for each part of the text, and in each an equation of places.
  simp only [List.getElem?_drop, digitAt, IsHyphen]
  split_ifs <;> first | rfl | omega | (congr 1; omega)

theorem length_group {digits : Bytes} (h : digits.length = 32) : (group digits).length = 36 := by
  simp only [group, List.length_append, List.length_cons, List.length_take, List.length_drop, h]
  rfl

/-- The hyphens stand at places of their own, so the digits can be read off. -/
theorem group_injective {s t : Bytes} (hs : s.length = 32) (ht : t.length = 32)
    (h : group s = group t) : s = t := by
  refine List.ext_getElem? fun i => ?_
  -- Each digit is compared at its own place, where neither text has a hyphen.
  have hplace := congrArg (·[placeOf i]?) h
  rcases digitAt_placeOf i with ⟨hhyphen, hdigit⟩
  simpa only [getElem?_group hs, getElem?_group ht, if_neg hhyphen, hdigit] using hplace

theorem lower_group (digits : Bytes) : (group digits).lower = group digits.lower := by
  simp only [group, Bytes.lower, List.map_append, List.map_cons, List.map_take, List.map_drop]
  rfl

theorem admitsFrom_iff {s : Bytes} {start : Nat} :
    admitsFrom start s = true ↔
      ∀ place b, s[place]? = some b → admits (start + place) b = true := by
  -- By induction on the text; the first place moves along, so it stays general.
  induction s generalizing start with
  | nil => exact ⟨fun _ place b h => absurd h (by simp), fun _ => rfl⟩
  | cons c s ih =>
      rw [admitsFrom, Bool.and_eq_true, ih]
      constructor
      · rintro ⟨hc, hs⟩ place b h
        cases place with
        | zero => rwa [← Option.some.inj h]
        | succ place =>
            rw [Nat.add_comm place 1, ← Nat.add_assoc]
            exact hs place b h
      · intro h
        refine ⟨h 0 c rfl, fun place b hb => ?_⟩
        rw [Nat.add_assoc, Nat.add_comm 1 place]
        exact h (place + 1) b hb

/-- A text of digits and hyphens is a nonce if the digits are admitted. -/
theorem isValidNonce_group {digits : Bytes} (h : digits.length = 32) :
    isValidNonce (group digits) = true ↔
      ∀ i b, digits[i]? = some b → admitsDigit i b = true := by
  rw [isValidNonce, Bool.and_eq_true, beq_iff_eq, admitsFrom_iff]
  constructor
  · rintro ⟨-, hadmits⟩ i b hb
    rcases digitAt_placeOf i with ⟨hhyphen, hdigit⟩
    have hplace := hadmits (placeOf i) b (by rw [getElem?_group h, if_neg hhyphen, hdigit, hb])
    rwa [Nat.zero_add, admits_eq_admitsDigit hhyphen, hdigit] at hplace
  · intro hdigits
    refine ⟨length_group h, fun place b hb => ?_⟩
    rw [getElem?_group h] at hb
    rw [Nat.zero_add]
    split at hb
    · next hhyphen =>
      rw [admits_of_isHyphen hhyphen, ← Option.some.inj hb]
      rfl
    · next hhyphen =>
      rw [admits_eq_admitsDigit hhyphen]
      exact hdigits _ b hb

/-- Every nonce is a text of digits and hyphens. -/
theorem exists_group {nonce : Bytes} (h : isValidNonce nonce = true) :
    ∃ digits : Bytes, digits.length = 32 ∧ nonce = group digits := by
  rw [isValidNonce, Bool.and_eq_true, beq_iff_eq, admitsFrom_iff] at h
  rcases h with ⟨hlength, hadmits⟩
  have hdigits : ((List.range 32).map fun i => nonce.getD (placeOf i) 0).length = 32 := by
    rw [List.length_map, List.length_range]
  -- The digits are what stands at their places; it remains that the hyphens are right.
  refine ⟨_, hdigits, List.ext_getElem? fun place => ?_⟩
  rw [getElem?_group hdigits]
  split
  · next hhyphen =>
    have hplace : place < nonce.length := by omega
    have hadmitted := hadmits place _ (List.getElem?_eq_getElem hplace)
    rw [Nat.zero_add, admits_of_isHyphen hhyphen, beq_iff_eq] at hadmitted
    rw [List.getElem?_eq_getElem hplace, hadmitted]
  · next hhyphen =>
    have hdigit : digitAt place < 32 ↔ place < nonce.length := by rw [hlength, digitAt_lt_iff]
    by_cases hplace : place < nonce.length
    · rw [List.getElem?_map, List.getElem?_range (hdigit.2 hplace), Option.map_some,
        placeOf_digitAt hhyphen, List.getElem?_eq_getElem hplace, List.getElem_eq_getD]
    · rw [List.getElem?_eq_none (Nat.not_lt.1 hplace),
        List.getElem?_eq_none (hdigits.trans_le (Nat.not_lt.1 (mt hdigit.1 hplace)))]

/-- Version and variant are hexadecimal digits too. -/
theorem isHexDigit_of_admitsDigit {i : Nat} {b : UInt8} (h : admitsDigit i b = true) :
    Ascii.isHexDigit b = true := by
  rw [admitsDigit] at h
  split at h
  · rw [beq_iff_eq.1 h]
    rfl
  · split at h
    · exact isHexDigit_of_variant b h
    · exact h

/-- No place admits a letter in one case only. -/
theorem admits_toLower (place : Nat) (b : UInt8) :
    admits place (Ascii.toLower b) = admits place b := by
  unfold admits
  -- One case for each kind of place, and in each all 256 bytes are tried.
  split_ifs
  · exact Ascii.forall_of_fin (p := fun b => (Ascii.toLower b == Ascii.minus) = (b == Ascii.minus))
      (by decide +kernel) b
  · exact Ascii.forall_of_fin (p := fun b => (Ascii.toLower b == 0x34) = (b == 0x34))
      (by decide +kernel) b
  · exact Ascii.forall_of_fin (p := fun b => (Bytes.ofString "89abAB").contains (Ascii.toLower b)
      = (Bytes.ofString "89abAB").contains b) (by decide +kernel) b
  · exact Ascii.forall_of_fin (p := fun b => Ascii.isHexDigit (Ascii.toLower b)
      = Ascii.isHexDigit b) (by decide +kernel) b

/-- The case of a nonce does not matter. -/
theorem isValidNonce_lower (nonce : Bytes) : isValidNonce nonce.lower = isValidNonce nonce := by
  have hfrom : ∀ place, admitsFrom place nonce.lower = admitsFrom place nonce := by
    induction nonce with
    | nil => exact fun place => rfl
    | cons b s ih =>
        intro place
        rw [Bytes.lower, List.map_cons, admitsFrom, admitsFrom, admits_toLower]
        exact congrArg _ (ih (place + 1))
  rw [isValidNonce, isValidNonce, hfrom, Bytes.lower, List.length_map]

theorem getElem?_stamp (random : Bytes) (place : Nat) :
    (stamp random)[place]? = random[place]?.map (stamped place) :=
  List.getElem?_mapIdx

theorem length_stamp (random : Bytes) : (stamp random).length = random.length := List.length_mapIdx

theorem length_encode_stamp (random : Octets 16) :
    (Hex.encode (stamp random.bytes)).length = 32 := by
  rw [Hex.length_encode, length_stamp, random.length_eq]

/-- The halves of a byte whose bits are set are admitted. -/
theorem admitsDigit_stamped (i : Nat) (b : UInt8) :
    admitsDigit i (Hex.digit (Hex.half i (stamped (i / 2) b))) = true := by
  rw [admitsDigit]
  split
  · next hversion =>
    rw [hversion]
    exact Ascii.forall_of_fin (p := fun b => (Hex.digit (Hex.half 12 (stamped (12 / 2) b)) == 0x34)
      = true) (by decide +kernel) b
  · split
    · next hvariant =>
      rw [hvariant]
      exact Ascii.forall_of_fin (p := fun b => (Bytes.ofString "89abAB").contains
        (Hex.digit (Hex.half 16 (stamped (16 / 2) b))) = true) (by decide +kernel) b
    · exact Hex.isHexDigit_digit _ (Hex.half_lt i _)

/-- A byte whose upper half is an admitted digit has its bits set already. -/
theorem stamped_of_admitsDigit {place : Nat} {b c : UInt8} (hc : admitsDigit (2 * place) c = true)
    (h : Hex.digit (Hex.half (2 * place) b) = Ascii.toLower c) : stamped place b = b := by
  rw [stamped]
  split
  · next hversion =>
    subst hversion
    rw [beq_iff_eq.1 (show (c == 0x34) = true from hc)] at h
    exact Ascii.forall_of_fin (p := fun b => Hex.digit (Hex.half 12 b) = Ascii.toLower 0x34 →
      b &&& 0x0f ||| 0x40 = b) (by decide +kernel) b h
  · split
    · next hvariant =>
      subst hvariant
      exact Ascii.forall_of_fin (p := fun b => ∀ c ∈ Bytes.ofString "89abAB",
        Hex.digit (Hex.half 16 b) = Ascii.toLower c → b &&& 0x3f ||| 0x80 = b)
        (by decide +kernel) b c (List.contains_iff_mem.1 hc) h
    · rfl

/-- A fixed bit is the same in all bytes, and any other bit is kept. -/
theorem testBit_stamped (place : Nat) (b : UInt8) {index : Nat} (hindex : index < 8) :
    (stamped place b).toNat.testBit index
      = if IsFixed place index then (stamped place 0).toNat.testBit index
        else b.toNat.testBit index := by
  -- Only two bytes have fixed bits, and in these all values of a byte are tried.
  by_cases hversion : place = 6
  · subst hversion
    exact Ascii.forall_of_fin (p := fun b => ∀ index < 8, (stamped 6 b).toNat.testBit index
      = if IsFixed 6 index then (stamped 6 0).toNat.testBit index else b.toNat.testBit index)
      (by decide +kernel) b index hindex
  · by_cases hvariant : place = 8
    · subst hvariant
      exact Ascii.forall_of_fin (p := fun b => ∀ index < 8, (stamped 8 b).toNat.testBit index
        = if IsFixed 8 index then (stamped 8 0).toNat.testBit index else b.toNat.testBit index)
        (by decide +kernel) b index hindex
    · have hfree : ¬ IsFixed place index := fun h =>
        h.elim (fun h => hversion h.1) (fun h => hvariant h.1)
      rw [if_neg hfree, stamped, if_neg hversion, if_neg hvariant]

/-- Setting the fixed bits forgets what they were, and nothing else. -/
theorem stamped_eq_iff {place : Nat} {a b : UInt8} :
    stamped place a = stamped place b ↔
      ∀ index < 8, ¬ IsFixed place index → a.toNat.testBit index = b.toNat.testBit index := by
  rw [Ascii.eq_iff_testBit]
  refine forall₂_congr fun index hindex => ?_
  rw [testBit_stamped place a hindex, testBit_stamped place b hindex]
  by_cases hfixed : IsFixed place index
  · rw [if_pos hfixed, if_pos hfixed]
    exact ⟨fun _ hfree => absurd hfixed hfree, fun _ => rfl⟩
  · rw [if_neg hfixed, if_neg hfixed]
    exact ⟨fun h _ => h, fun h => h hfixed⟩

/-- The bits are set byte by byte, so what is forgotten is forgotten byte by byte. -/
theorem stamp_eq_iff {a b : Octets 16} :
    stamp a.bytes = stamp b.bytes ↔ ∀ place < 16,
      stamped place (a.bytes.getD place 0) = stamped place (b.bytes.getD place 0) := by
  constructor
  · intro h place hplace
    have hplaces := congrArg (·[place]?) h
    simpa only [getElem?_stamp, a.getElem?_bytes hplace, b.getElem?_bytes hplace, Option.map_some,
      Option.some.injEq] using hplaces
  · intro h
    refine List.ext_getElem? fun place => ?_
    rw [getElem?_stamp, getElem?_stamp]
    by_cases hplace : place < 16
    · rw [a.getElem?_bytes hplace, b.getElem?_bytes hplace, Option.map_some, Option.map_some,
        h place hplace]
    · rw [List.getElem?_eq_none (a.length_eq.trans_le (Nat.not_lt.1 hplace)),
        List.getElem?_eq_none (b.length_eq.trans_le (Nat.not_lt.1 hplace))]

/-- What is generated is admitted. -/
theorem isValidNonce_uuid (random : Octets 16) : isValidNonce (uuid random.bytes) = true := by
  refine (isValidNonce_group (length_encode_stamp random)).2 fun i c hc => ?_
  rw [Hex.getElem?_encode, getElem?_stamp, Option.map_map, Option.map_eq_some_iff] at hc
  rcases hc with ⟨b, -, rfl⟩
  exact admitsDigit_stamped i b

/-- What is admitted is generated, up to the case of its digits: from the bytes that they stand
for. -/
theorem exists_uuid_eq_lower {nonce : Bytes} (h : isValidNonce nonce = true) :
    ∃ random : Octets 16, nonce.lower = uuid random.bytes := by
  rcases exists_group h with ⟨digits, hlength, rfl⟩
  have hdigits := (isValidNonce_group hlength).1 h
  -- All digits are hexadecimal, so they stand for bytes.
  have hhex : Hex.isHex digits = true := by
    refine List.all_eq_true.2 fun b hb => ?_
    rcases List.mem_iff_getElem?.1 hb with ⟨i, hi⟩
    exact isHexDigit_of_admitsDigit (hdigits i b hi)
  rcases Hex.exists_decode digits (by rw [hlength]) hhex with ⟨bytes, hbytes⟩
  have hencode := Hex.encode_of_decode hbytes
  have hsixteen : bytes.length = 16 := by
    have hlengths := congrArg List.length hencode
    rw [Hex.length_encode, Bytes.lower, List.length_map, hlength] at hlengths
    omega
  -- The fixed bits of these bytes are set already.
  have hstamp : stamp bytes = bytes := by
    refine List.ext_getElem? fun place => ?_
    rw [getElem?_stamp]
    cases hb : bytes[place]? with
    | none => rfl
    | some b =>
        have hupper := congrArg (·[2 * place]?) hencode
        simp only [Hex.getElem?_encode, Nat.mul_div_cancel_left place Nat.two_pos, hb,
          Option.map_some, Bytes.lower, List.getElem?_map] at hupper
        rcases Option.map_eq_some_iff.1 hupper.symm with ⟨c, hc, hlower⟩
        rw [Option.map_some, stamped_of_admitsDigit (hdigits _ c hc) hlower.symm]
  exact ⟨⟨bytes, hsixteen⟩, by rw [lower_group, ← hencode, uuid, hstamp]⟩

/-- Two byte sequences give the same nonce if they differ in fixed bits only. -/
theorem uuid_eq_iff {a b : Octets 16} :
    uuid a.bytes = uuid b.bytes ↔ ∀ place < 16, ∀ index < 8, ¬ IsFixed place index →
      a.bit place index = b.bit place index := by
  -- Digits and hyphens lose nothing, so it is all in the bits that are set.
  have hstamp : uuid a.bytes = uuid b.bytes ↔ stamp a.bytes = stamp b.bytes := by
    constructor
    · intro h
      exact Hex.encode_injective
        (group_injective (length_encode_stamp a) (length_encode_stamp b) h)
    · intro h
      rw [uuid, uuid, h]
  rw [hstamp, stamp_eq_iff]
  exact forall₂_congr fun place _ => stamped_eq_iff

/-- Six of the 128 bits are fixed. -/
example : ((List.range 16).map fun place =>
    (List.range 8).countP fun index => decide (IsFixed place index)).sum = 6 := by decide

end Uuid

/-- A nonce that is drawn at random is admissible. -/
theorem Signer.isValidNonce_drawParams {s : Signer} {o : SigningOptions} (hnonce : o.nonce = none)
    (hnonces : s.config.nonces = none) (w : World) :
    isValidNonce (s.drawParams o w).1.nonce = true := by
  have hdrawn : (s.drawParams o w).1.nonce = uuid (w.random w.requests).bytes := by
    simp only [drawParams, drawNonce, hnonce, hnonces, World.randomBytes]
  rw [hdrawn]
  exact Uuid.isValidNonce_uuid _

/-- Of the reasons for which a message is not signed one is the nonce. -/
theorem Signer.Refuses.isValidNonce_eq_false {p : Params} {url : Bytes} {e : SigningError}
    (h : Refuses p url e) (hcode : e.code = .invalidNonce) : isValidNonce p.nonce = false := by
  cases h with
  | nonce hnonce => exact hnonce
  | noComponents => cases hcode
  | timestamp => cases hcode
  | header => cases hcode
  | url => cases hcode

/-- Generated nonces are admissible, so signing with them never fails for the nonce; they keep
every bit of the random bytes but the six of version and variant; and up to the case of its
letters every admissible nonce is a generated one. -/
theorem uuid_exact :
    (∀ random : Octets 16, isValidNonce (uuid random.bytes) = true) ∧
    (∀ (suite : Suite) (s : Signer) (m : Message) (o : SigningOptions) (w : World)
      (e : SigningError), o.nonce = none → s.config.nonces = none →
        (s.sign suite m o w).1 = .error e → e.code ≠ .invalidNonce) ∧
    (∀ a b : Octets 16, uuid a.bytes = uuid b.bytes ↔
      ∀ place < 16, ∀ index < 8, ¬ Uuid.IsFixed place index →
        a.bit place index = b.bit place index) ∧
    (∀ nonce : Bytes, isValidNonce nonce = true ↔
      ∃ random : Octets 16, nonce.lower = uuid random.bytes) := by
  refine ⟨Uuid.isValidNonce_uuid, fun suite s m o w e hnonce hnonces herror hcode => ?_,
    fun a b => Uuid.uuid_eq_iff, fun nonce => ⟨Uuid.exists_uuid_eq_lower, ?_⟩⟩
  · have hvalid := Signer.isValidNonce_drawParams hnonce hnonces w
    have hrefused := (Signer.refuses_of_sign herror).isValidNonce_eq_false hcode
    exact Bool.false_ne_true (hrefused.symm.trans hvalid)
  · -- Case is all that a generated nonce may differ in, and the check does not see it.
    rintro ⟨random, hrandom⟩
    rw [← Uuid.isValidNonce_lower, hrandom]
    exact Uuid.isValidNonce_uuid random

/-- Without nonces of its own a signer that is asked for the year 1970 fails for that. -/
theorem uuid_exact_old_timestamp :
    let s : Signer :=
      ⟨{ keyId := "k", privateKey := some Sample.key
         components := .create true false ["date"] false }, Sample.key⟩
    let o : SigningOptions := { created := some 0 }
    let w : World := { clock := ⟨1700000060, 0⟩, random := fun _ => .zero 16 }
    o.nonce = none ∧ s.config.nonces = none ∧
      (s.sign Sample.suite Sample.request o w).1 = .error (.invalidTimestamp 0) ∧
      SigningError.code (.invalidTimestamp 0) ≠ .invalidNonce := by
  intro s o w
  have herror : (s.sign Sample.suite Sample.request o w).1 = .error (.invalidTimestamp 0) := rfl
  exact ⟨rfl, rfl, herror, uuid_exact.2.1 Sample.suite s Sample.request o w _ rfl rfl herror⟩

end SignedHttp
