import SignedHttp.Text.Hex

/-!
# Digits and the Bytes They Stand For

Two digits stand for a byte, and a byte determines the values of its two digits. So
texts that stand for the same bytes have digits of equal values, place by place
(`map_digitValue_of_decode_eq`), and differ in the case of letters only. Writing
chooses the lower case, and what was read is written back in it (`encode_of_decode`).

Every text with an even number of digits is read (`exists_decode`). In what is written
each digit is half of the byte at half of its place (`getElem?_encode`).

## Main definitions

* `half`: The upper half of a byte or the lower one.

## Theorems

* `exists_of_decode_cons`: The first two digits, and the rest.
* `map_digitValue_of_decode_eq`: Equal bytes come from digits of equal values.
* `decode_congr`: What is read depends on the values of the digits only.
* `exists_decode`, `encode_of_decode`: Which texts are read, and how they are written back.
* `getElem?_encode`: The digit at a place.
-/

namespace SignedHttp

namespace Hex

/-- A half of a byte: the upper one at an even place, the lower one at an odd one. -/
def half (place : Nat) (b : UInt8) : UInt8 := if place % 2 = 0 then b >>> 4 else b &&& 0x0f

theorem digitValue_lt {b v : UInt8} (h : digitValue b = some v) : v < 16 :=
  Ascii.forall_of_fin (p := fun b => ∀ v ∈ digitValue b, v < 16) (by decide +kernel) b v h

theorem half_lt (place : Nat) (b : UInt8) : half place b < 16 := by
  rw [half]
  split
  · exact (nibbles b).1
  · exact (nibbles b).2.1

theorem isHexDigit_digit (v : UInt8) : v < 16 → Ascii.isHexDigit (digit v) = true :=
  Ascii.forall_of_fin (p := fun v => v < 16 → Ascii.isHexDigit (digit v) = true)
    (by decide +kernel) v

theorem exists_digitValue {b : UInt8} (h : Ascii.isHexDigit b = true) :
    ∃ v, digitValue b = some v :=
  Option.isSome_iff_exists.1 (Ascii.forall_of_fin
    (p := fun b => Ascii.isHexDigit b = true → (digitValue b).isSome = true)
    (by decide +kernel) b h)

/-- The digit of a value is the one that the value was read from, in lower case. -/
theorem digit_of_digitValue {b v : UInt8} (h : digitValue b = some v) :
    digit v = Ascii.toLower b :=
  Ascii.forall_of_fin (p := fun b => ∀ v ∈ digitValue b, digit v = Ascii.toLower b)
    (by decide +kernel) b v h

/-- Two digits are determined by the byte that they stand for. -/
theorem halves_inj {h l h' l' : UInt8} (hh : h < 16) (hl : l < 16) (hh' : h' < 16) (hl' : l' < 16)
    (heq : h * 16 + l = h' * 16 + l') : h = h' ∧ l = l' := by
  rw [UInt8.lt_iff_toNat_lt] at hh hl hh' hl'
  -- Below sixteen nothing wraps around, so this is an equation of numbers.
  have hsum := congrArg UInt8.toNat heq
  simp only [UInt8.toNat_add, UInt8.toNat_mul] at hsum
  have h16 : (16 : UInt8).toNat = 16 := rfl
  rw [h16] at hh hl hh' hl' hsum
  exact ⟨UInt8.toNat_inj.1 (by omega), UInt8.toNat_inj.1 (by omega)⟩

theorem eq_nil_of_decode {s : Bytes} (h : decode s = some []) : s = [] := by
  match s with
  | [] => rfl
  | [_] => cases h
  | hi :: lo :: s =>
      simp only [decode] at h
      split at h
      · cases Option.some.inj h
      · cases h

/-- The first byte that a text stands for is that of its first two digits. -/
theorem exists_of_decode_cons {s bytes : Bytes} {b : UInt8} (h : decode s = some (b :: bytes)) :
    ∃ hi lo rest x y, s = hi :: lo :: rest ∧ digitValue hi = some x ∧ digitValue lo = some y ∧
      decode rest = some bytes ∧ b = x * 16 + y := by
  match s with
  | [] => cases h
  | [_] => cases h
  | hi :: lo :: s =>
      simp only [decode] at h
      split at h
      · next x y rest hx hy hrest =>
        rcases List.cons.inj (Option.some.inj h) with ⟨hb, hbytes⟩
        exact ⟨hi, lo, s, x, y, rfl, hx, hy, hbytes ▸ hrest, hb.symm⟩
      · cases h

/-- Texts that stand for the same bytes have digits of equal values. -/
theorem map_digitValue_of_decode_eq {s t bytes : Bytes} (hs : decode s = some bytes)
    (ht : decode t = some bytes) : s.map digitValue = t.map digitValue := by
  -- By induction on the bytes, since each takes two digits off both texts.
  induction bytes generalizing s t with
  | nil => rw [eq_nil_of_decode hs, eq_nil_of_decode ht]
  | cons b bytes ih =>
      rcases exists_of_decode_cons hs with ⟨hi, lo, s', x, y, rfl, hx, hy, hrest, hb⟩
      rcases exists_of_decode_cons ht with ⟨hi', lo', t', x', y', rfl, hx', hy', hrest', hb'⟩
      rcases halves_inj (digitValue_lt hx) (digitValue_lt hy) (digitValue_lt hx')
        (digitValue_lt hy') (hb.symm.trans hb') with ⟨rfl, rfl⟩
      rw [List.map_cons, List.map_cons, List.map_cons, List.map_cons, hx, hy, hx', hy',
        ih hrest hrest']

/-- A text that stands for bytes consists of digits. -/
theorem digitValue_ne_none_of_decode {s bytes : Bytes} (h : decode s = some bytes) :
    ∀ b ∈ s, digitValue b ≠ none := by
  induction bytes generalizing s with
  | nil =>
      rw [eq_nil_of_decode h]
      exact fun b hb => absurd hb List.not_mem_nil
  | cons b bytes ih =>
      rcases exists_of_decode_cons h with ⟨hi, lo, s', x, y, rfl, hx, hy, hrest, -⟩
      rw [List.forall_mem_cons, List.forall_mem_cons, hx, hy]
      exact ⟨Option.some_ne_none x, Option.some_ne_none y, ih hrest⟩

/-- What a text stands for depends on the values of its digits only. -/
theorem decode_congr (s t : Bytes) (h : s.map digitValue = t.map digitValue) :
    decode s = decode t := by
  match s with
  | [] => rw [List.map_eq_nil_iff.1 h.symm]
  | [b] =>
      rcases List.map_eq_cons_iff.1 h.symm with ⟨c, t', rfl, -, hrest⟩
      rw [List.map_eq_nil_iff.1 hrest]
      rfl
  | hi :: lo :: s =>
      rcases List.map_eq_cons_iff.1 h.symm with ⟨hi', t', rfl, hhi, h'⟩
      rcases List.map_eq_cons_iff.1 h' with ⟨lo', t'', rfl, hlo, hrest⟩
      simp only [decode, hhi, hlo, decode_congr s t'' hrest.symm]

/-- Digits can stand between colons. -/
theorem colon_not_mem_of_decode {s bytes : Bytes} (h : decode s = some bytes) :
    Ascii.colon ∉ s :=
  fun hcolon => digitValue_ne_none_of_decode h Ascii.colon hcolon rfl

/-- Digits in pairs are read. -/
theorem exists_decode (s : Bytes) (heven : s.length % 2 = 0) (h : isHex s = true) :
    ∃ bytes, decode s = some bytes := by
  match s with
  | [] => exact ⟨[], rfl⟩
  | [_] => exact absurd heven Nat.one_ne_zero
  | hi :: lo :: s =>
      rw [isHex, List.all_cons, List.all_cons, Bool.and_eq_true, Bool.and_eq_true] at h
      rw [List.length_cons, List.length_cons] at heven
      rcases exists_digitValue h.1 with ⟨x, hx⟩
      rcases exists_digitValue h.2.1 with ⟨y, hy⟩
      -- By recursion, two digits at a time.
      rcases exists_decode s (by omega) h.2.2 with ⟨bytes, hbytes⟩
      exact ⟨(x * 16 + y) :: bytes, by simp only [decode, hx, hy, hbytes]⟩

/-- What was read is written back in lower case. -/
theorem encode_of_decode {s bytes : Bytes} (h : decode s = some bytes) :
    encode bytes = s.lower := by
  induction bytes generalizing s with
  | nil => rw [eq_nil_of_decode h]; rfl
  | cons b bytes ih =>
      rcases exists_of_decode_cons h with ⟨hi, lo, rest, x, y, rfl, hx, hy, hrest, hb⟩
      -- The byte is made of the two values, and has them for its halves.
      rcases nibbles b with ⟨hupper, hlower, hwhole⟩
      rcases halves_inj hupper hlower (digitValue_lt hx) (digitValue_lt hy) (hwhole.trans hb)
        with ⟨hx', hy'⟩
      rw [encode, hx', hy', digit_of_digitValue hx, digit_of_digitValue hy, ih hrest]
      rfl

theorem encode_injective {s t : Bytes} (h : encode s = encode t) : s = t := by
  have hs := decode_encode s
  rw [h, decode_encode, Option.some.injEq] at hs
  exact hs.symm

theorem isHex_encode (s : Bytes) : isHex (encode s) = true := by
  rw [isHex, List.all_eq_true]
  induction s with
  | nil => exact fun b hb => absurd hb List.not_mem_nil
  | cons b s ih =>
      rw [encode, List.forall_mem_cons, List.forall_mem_cons]
      exact ⟨isHexDigit_digit _ (nibbles b).1, isHexDigit_digit _ (nibbles b).2.1, ih⟩

/-- Each byte is at two places, its upper half at the first of them. -/
theorem getElem?_encode (s : Bytes) (place : Nat) :
    (encode s)[place]? = s[place / 2]?.map fun b => digit (half place b) := by
  match s, place with
  | [], place => rfl
  | b :: s, 0 => rfl
  | b :: s, 1 => rfl
  | b :: s, place + 2 =>
      have hhalf : half (place + 2) = half place := by
        funext c
        rw [half, half, Nat.add_mod_right]
      rw [encode, List.getElem?_cons_succ, List.getElem?_cons_succ, getElem?_encode s place, hhalf,
        Nat.add_div_right place Nat.two_pos, List.getElem?_cons_succ]

end Hex

end SignedHttp
