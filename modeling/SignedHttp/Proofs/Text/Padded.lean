import Mathlib.Algebra.Group.Nat.Defs
import Mathlib.Data.List.TakeWhile
import SignedHttp.Proofs.Text.Base64

/-!
# Which Texts Are Base 64, and Which Are Written So

Reading is more generous than writing, and this is how much. A text is read if it is
characters of the alphabet with at most two equals signs behind them, in groups of four
(`isPadded_iff`). Nothing is asked of the bits that the last character has beyond the
last whole byte, two of them behind one equals sign and four behind two.

Writing fills these bits with zeros. So of the texts that are read as the same bytes
one is written, the one whose last character has no such bit set.

Both follow from the values in the text. Regrouping them into bytes and back keeps all
but those bits (`sextets_ofSextets_iff`). Each byte is of two neighbouring values, and
what one of them has in it is apart from what the other one has.

## Main definitions

* `alphabet`: The characters in the order of their values.
* `data`: What stands before the padding.
* `IsPadded`: The texts that can be read.
* `spareBits`: How many bits do not fill a byte.

## Theorems

* `exists_of_decode`: The values and the padding of a text that is read.
* `sextets_ofSextets_iff`: Which values come back from the bytes.
* `isPadded_iff`: The texts that are read.
* `codec_exact`: Writing is undone by reading, and when reading is by writing.
-/

namespace SignedHttp

namespace Base64

/-- The characters of the alphabet, each at the place of its value. -/
def alphabet : Bytes := "ABCDEFGHIJKLMNOPQRSTUVWXYZabcdefghijklmnopqrstuvwxyz0123456789+/"

/-- What stands before the padding of a text. -/
def data (s : Bytes) : Bytes := s.takeWhile (· != Ascii.equals)

/-- How many bits of so many characters are left over when whole bytes are made of them. -/
def spareBits (chars : Nat) : Nat := 6 * chars % 8

/-- Padded text: characters of the alphabet and at most two equals signs, in groups of four. -/
structure IsPadded (s : Bytes) : Prop where
  length : s.length % 4 = 0
  chars : ∀ b ∈ data s, b ∈ alphabet
  padding : ∃ n ≤ 2, s = data s ++ List.replicate n Ascii.equals

/-- The alphabet lists the characters of the values from 0 to 63. -/
theorem alphabet_eq : alphabet = (List.range 64).map fun v => char (UInt8.ofNat v) := by
  decide +kernel

/-- The character of a value is at the place of that value. -/
theorem idxOf_char (v : UInt8) :
    v < 64 → char v ∈ alphabet ∧ alphabet.idxOf (char v) = v.toNat :=
  Ascii.forall_of_fin (p := fun v => v < 64 → char v ∈ alphabet ∧
    alphabet.idxOf (char v) = v.toNat) (by decide +kernel) v

/-- A character of the alphabet is the one of its place. -/
theorem char_idxOf {b : UInt8} (h : b ∈ alphabet) :
    UInt8.ofNat (alphabet.idxOf b) < 64 ∧ char (UInt8.ofNat (alphabet.idxOf b)) = b := by
  rw [alphabet_eq] at h
  rcases List.mem_map.1 h with ⟨n, hn, rfl⟩
  have hv : UInt8.ofNat n < 64 := by
    rw [List.mem_range] at hn
    rw [UInt8.lt_iff_toNat_lt, UInt8.toNat_ofNat]
    exact (Nat.mod_le n _).trans_lt hn
  rw [(idxOf_char _ hv).2, UInt8.ofNat_toNat]
  exact ⟨hv, rfl⟩

/-- A character that has a value is the character of that value. -/
theorem char_of_charValue (b : UInt8) : ∀ v ∈ charValue b, v < 64 ∧ char v = b :=
  Ascii.forall_of_fin (p := fun b => ∀ v ∈ charValue b, v < 64 ∧ char v = b) (by decide +kernel) b

/-- Characters that all have values are the characters of these values. -/
theorem mapM_charValue_iff {s : Bytes} {vs : List UInt8} :
    s.mapM charValue = some vs ↔ s = vs.map char ∧ ∀ v ∈ vs, v < 64 := by
  constructor
  · intro h
    -- By induction on the text, of which every byte has to have a value.
    induction s generalizing vs with
    | nil =>
        cases h
        exact ⟨rfl, fun v hv => absurd hv List.not_mem_nil⟩
    | cons b s ih =>
        rw [List.mapM_cons, Option.bind_eq_bind, Option.bind_eq_some_iff] at h
        rcases h with ⟨v, hv, h⟩
        rw [Option.bind_eq_bind, Option.bind_eq_some_iff] at h
        rcases h with ⟨vs', hvs, h⟩
        cases h
        rcases ih hvs with ⟨hs, hlt⟩
        rcases char_of_charValue b v hv with ⟨hv64, hb⟩
        rw [List.map_cons, hb, ← hs, List.forall_mem_cons]
        exact ⟨rfl, hv64, hlt⟩
  · rintro ⟨rfl, hvs⟩
    exact mapM_charValue hvs

/-- A text that is read consists of values and padding in groups of four. -/
theorem exists_of_decode {s y : Bytes} (h : decode s = some y) :
    ∃ vs n, (∀ v ∈ vs, v < 64) ∧ n ≤ 2 ∧ (vs.length + n) % 4 = 0 ∧
      s = vs.map char ++ List.replicate n Ascii.equals ∧ y = ofSextets vs := by
  rw [decode, Option.ite_none_left_eq_some, not_or, not_not, Nat.not_lt,
    Option.map_eq_some_iff] at h
  rcases h with ⟨⟨hlength, hcount⟩, vs, hvs, rfl⟩
  have hle := List.count_le_length (a := Ascii.equals) (l := s)
  generalize hn : s.count Ascii.equals = n at *
  rcases mapM_charValue_iff.1 hvs with ⟨htake, hlt⟩
  have hall := List.take_append_drop (s.length - n) s
  rw [htake] at hall
  -- What is not taken is as long as the padding, and holds all of it.
  have hlengthDrop : (s.drop (s.length - n)).length = n := by
    rw [List.length_drop]
    omega
  have hcountDrop := congrArg (List.count Ascii.equals) hall
  rw [List.count_append, List.count_eq_zero_of_not_mem (equals_not_mem_chars hlt), Nat.zero_add,
    hn] at hcountDrop
  have hdrop : s.drop (s.length - n) = List.replicate n Ascii.equals :=
    List.eq_replicate_iff.2 ⟨hlengthDrop, fun b hb =>
      (List.count_eq_length.1 (hcountDrop.trans hlengthDrop.symm) b hb).symm⟩
  refine ⟨vs, n, hlt, hcount, ?_, by rw [← hdrop, hall], rfl⟩
  have hvalues := congrArg List.length htake
  rw [List.length_take, List.length_map] at hvalues
  omega

theorem or_and (a b c : UInt8) : (a ||| b) &&& c = (a &&& c) ||| (b &&& c) :=
  UInt8.eq_of_toBitVec_eq BitVec.and_or_distrib_right

/-- A value that is shifted apart into two bytes is put together again. -/
theorem restore (v : UInt8) : v < 64 →
    (v >>> 4) <<< 4 ||| (v <<< 4) >>> 4 = v ∧ (v >>> 2) <<< 2 ||| (v <<< 6) >>> 6 = v :=
  Ascii.forall_of_fin (p := fun v => v < 64 →
    (v >>> 4) <<< 4 ||| (v <<< 4) >>> 4 = v ∧ (v >>> 2) <<< 2 ||| (v <<< 6) >>> 6 = v)
    (by decide +kernel) v

/-- A first byte is a whole value and the upper bits of the next one. -/
theorem first_byte {p q : UInt8} (hp : p < 64) (hq : q < 64) :
    (p <<< 2 ||| q >>> 4) >>> 2 = p ∧ (p <<< 2 ||| q >>> 4) &&& (3 : UInt8) = q >>> 4 := by
  have hpart : ∀ v : UInt8, v < 64 → (v <<< 2) >>> 2 = v ∧ (v >>> 4) >>> 2 = 0 ∧
      v <<< 2 &&& (3 : UInt8) = 0 ∧ v >>> 4 &&& (3 : UInt8) = v >>> 4 :=
    Ascii.forall_of_fin (p := fun v => v < 64 → (v <<< 2) >>> 2 = v ∧ (v >>> 4) >>> 2 = 0 ∧
      v <<< 2 &&& (3 : UInt8) = 0 ∧ v >>> 4 &&& (3 : UInt8) = v >>> 4) (by decide +kernel)
  rw [UInt8.shiftRight_or, or_and, (hpart p hp).1, (hpart q hq).2.1, (hpart p hp).2.2.1,
    (hpart q hq).2.2.2, UInt8.or_zero, UInt8.zero_or]
  exact ⟨rfl, rfl⟩

/-- A second byte is the lower bits of a value and the upper bits of the next one. -/
theorem second_byte {q r : UInt8} (hr : r < 64) :
    (q <<< 4 ||| r >>> 2) >>> 4 = (q <<< 4) >>> 4 ∧
      (q <<< 4 ||| r >>> 2) &&& (15 : UInt8) = r >>> 2 := by
  have hq : q <<< 4 &&& (15 : UInt8) = 0 :=
    Ascii.forall_of_fin (p := fun v => v <<< 4 &&& (15 : UInt8) = 0) (by decide +kernel) q
  have hpart : ∀ v : UInt8, v < 64 → (v >>> 2) >>> 4 = 0 ∧ v >>> 2 &&& (15 : UInt8) = v >>> 2 :=
    Ascii.forall_of_fin (p := fun v => v < 64 → (v >>> 2) >>> 4 = 0 ∧
      v >>> 2 &&& (15 : UInt8) = v >>> 2) (by decide +kernel)
  rw [UInt8.shiftRight_or, or_and, (hpart r hr).1, hq, (hpart r hr).2, UInt8.or_zero,
    UInt8.zero_or]
  exact ⟨rfl, rfl⟩

/-- A third byte is the lower bits of a value and a whole one. -/
theorem third_byte {r t : UInt8} (ht : t < 64) :
    (r <<< 6 ||| t) >>> 6 = (r <<< 6) >>> 6 ∧ (r <<< 6 ||| t) &&& (63 : UInt8) = t := by
  have hr : r <<< 6 &&& (63 : UInt8) = 0 :=
    Ascii.forall_of_fin (p := fun v => v <<< 6 &&& (63 : UInt8) = 0) (by decide +kernel) r
  have hpart : ∀ v : UInt8, v < 64 → v >>> 6 = 0 ∧ v &&& (63 : UInt8) = v :=
    Ascii.forall_of_fin (p := fun v => v < 64 → v >>> 6 = 0 ∧ v &&& (63 : UInt8) = v)
      (by decide +kernel)
  rw [UInt8.shiftRight_or, or_and, (hpart t ht).1, hr, (hpart t ht).2, UInt8.or_zero,
    UInt8.zero_or]
  exact ⟨rfl, rfl⟩

/-- The lower bits of a value that no byte is made of are kept if there are none. -/
theorem keeps_iff (v : UInt8) : ((v >>> 4) <<< 4 = v ↔ v.toNat % 2 ^ spareBits 2 = 0) ∧
    ((v >>> 2) <<< 2 = v ↔ v.toNat % 2 ^ spareBits 3 = 0) :=
  Ascii.forall_of_fin (p := fun v => ((v >>> 4) <<< 4 = v ↔ v.toNat % 2 ^ spareBits 2 = 0) ∧
    ((v >>> 2) <<< 2 = v ↔ v.toNat % 2 ^ spareBits 3 = 0)) (by decide +kernel) v

/-- Regrouping values into bytes and back gives the values, unless bits of the last one are left
over that are not zero. -/
theorem sextets_ofSextets_iff {vs : List UInt8} (hvs : ∀ v ∈ vs, v < 64)
    (hlength : vs.length % 4 ≠ 1) :
    sextets (ofSextets vs) = vs ↔ ∀ v ∈ vs.getLast?, v.toNat % 2 ^ spareBits vs.length = 0 := by
  fun_induction ofSextets vs with
  | case1 p q r t s ih =>
      simp only [List.forall_mem_cons] at hvs
      rcases hvs with ⟨hp, hq, hr, ht, hs⟩
      have hgroup : sextets ((p <<< 2 ||| q >>> 4) :: (q <<< 4 ||| r >>> 2) :: (r <<< 6 ||| t)
          :: ofSextets s) = p :: q :: r :: t :: sextets (ofSextets s) := by
        rw [sextets, (first_byte hp hq).1, (first_byte hp hq).2, (second_byte hr).1,
          (second_byte hr).2, (third_byte ht).1, (third_byte ht).2, (restore q hq).1,
          (restore r hr).2]
      -- A whole group fills its bytes, so what is left over is left over behind it.
      have hspare : spareBits (s.length + 4) = spareBits s.length := by
        simp only [spareBits]
        omega
      simp only [List.length_cons] at hlength
      simp only [hgroup, List.cons.injEq, true_and, List.length_cons]
      rw [ih hs (by omega), hspare]
      cases s with
      | nil => simp [spareBits, Nat.mod_one]
      | cons b s => rw [List.getLast?_cons_cons, List.getLast?_cons_cons, List.getLast?_cons_cons,
          List.getLast?_cons_cons]
  -- Three values make two bytes and leave two bits, and two values one byte and four bits.
  | case2 p q r =>
      simp only [List.forall_mem_cons] at hvs
      rcases hvs with ⟨hp, hq, hr, -⟩
      have hgroup : sextets [p <<< 2 ||| q >>> 4, q <<< 4 ||| r >>> 2]
          = [p, q, (r >>> 2) <<< 2] := by
        rw [sextets, (first_byte hp hq).1, (first_byte hp hq).2, (second_byte hr).1,
          (second_byte hr).2, (restore q hq).1]
      simp [hgroup, (keeps_iff r).2]
  | case3 p q =>
      simp only [List.forall_mem_cons] at hvs
      rcases hvs with ⟨hp, hq, -⟩
      have hgroup : sextets [p <<< 2 ||| q >>> 4] = [p, (q >>> 4) <<< 4] := by
        rw [sextets, (first_byte hp hq).1, (first_byte hp hq).2]
      simp [hgroup, (keeps_iff q).1]
  | case4 p => exact absurd rfl hlength
  | case5 => simp [sextets]

/-- The bytes that values are regrouped into need the padding that the values had. -/
theorem padding_ofSextets {vs : List UInt8} {n : Nat} (hn : n ≤ 2)
    (hlength : (vs.length + n) % 4 = 0) : padding (ofSextets vs) = n := by
  fun_induction ofSextets vs with
  | case1 p q r t s ih =>
      rw [List.length_cons, List.length_cons, List.length_cons, List.length_cons] at hlength
      rw [padding]
      exact ih (by omega)
  | case2 p q r => simp only [padding, List.length_cons, List.length_nil] at hlength ⊢; omega
  | case3 p q => simp only [padding, List.length_cons, List.length_nil] at hlength ⊢; omega
  | case4 p => simp only [padding, List.length_cons, List.length_nil] at hlength ⊢; omega
  | case5 => simp only [padding, List.length_nil] at hlength ⊢; omega

/-- The data ends where the padding begins. -/
theorem data_chars {vs : List UInt8} (hvs : ∀ v ∈ vs, v < 64) (n : Nat) :
    data (vs.map char ++ List.replicate n Ascii.equals) = vs.map char := by
  have hchars : ∀ b ∈ vs.map char, (b != Ascii.equals) = true := fun b hb =>
    bne_iff_ne.2 fun h => equals_not_mem_chars hvs (h ▸ hb)
  rw [data, List.takeWhile_append_of_pos hchars]
  cases n with
  | zero => exact List.append_nil _
  | succ n => rw [List.replicate_succ, List.takeWhile_cons_of_neg (by decide), List.append_nil]

/-- The texts that are read are the padded ones. -/
theorem isPadded_iff {s : Bytes} : IsPadded s ↔ ∃ y, decode s = some y := by
  constructor
  · rintro ⟨hlength, hchars, n, hn, hs⟩
    have hvs : ∀ v ∈ (data s).map (fun b => UInt8.ofNat (alphabet.idxOf b)), v < 64 := by
      intro v hv
      rcases List.mem_map.1 hv with ⟨b, hb, rfl⟩
      exact (char_idxOf (hchars b hb)).1
    have hdata : ((data s).map (fun b => UInt8.ofNat (alphabet.idxOf b))).map char = data s := by
      rw [List.map_map]
      exact (List.map_congr_left fun b hb => (char_idxOf (hchars b hb)).2).trans (List.map_id' _)
    have hdecode := decode_chars hvs hn (by
      rw [hs, List.length_append, List.length_replicate] at hlength
      rw [List.length_map, hlength])
    rw [hdata, ← hs] at hdecode
    exact ⟨_, hdecode⟩
  · rintro ⟨y, hy⟩
    rcases exists_of_decode hy with ⟨vs, n, hvs, hn, hlength, rfl, -⟩
    refine ⟨?_, ?_, n, hn, ?_⟩
    · rw [List.length_append, List.length_map, List.length_replicate, hlength]
    · rw [data_chars hvs]
      intro b hb
      rcases List.mem_map.1 hb with ⟨v, hv, rfl⟩
      exact (idxOf_char v (hvs v hv)).1
    · rw [data_chars hvs]

theorem length_encode (x : Bytes) : (encode x).length = 4 * ((x.length + 2) / 3) := by
  fun_induction encode x with
  | case1 => rfl
  | case2 a => simp only [List.length_cons, List.length_nil, Nat.reduceAdd, Nat.reduceDiv]
  | case3 a b => simp only [List.length_cons, List.length_nil, Nat.reduceAdd, Nat.reduceDiv]
  | case4 a b c s ih =>
      simp only [List.length_cons]
      omega

/-- A text that is read is the one that is written for its bytes if the last character before the
padding has no bit set that fills no byte. -/
theorem encode_of_decode_iff {s y : Bytes} (h : decode s = some y) :
    encode y = s ↔
      ∀ b ∈ (data s).getLast?, alphabet.idxOf b % 2 ^ spareBits (data s).length = 0 := by
  rcases exists_of_decode h with ⟨vs, n, hvs, hn, hlength, rfl, rfl⟩
  rw [encode_eq, padding_ofSextets hn hlength, List.append_cancel_right_eq, data_chars hvs,
    List.length_map, List.getLast?_map]
  -- The characters of values are as different as the values.
  have hvalues : (sextets (ofSextets vs)).map char = vs.map char ↔ sextets (ofSextets vs) = vs := by
    refine ⟨fun hsame => ?_, fun hsame => by rw [hsame]⟩
    have hread := mapM_charValue (lt_of_mem_sextets (ofSextets vs))
    rw [hsame, mapM_charValue hvs] at hread
    exact (Option.some.inj hread).symm
  rw [hvalues, sextets_ofSextets_iff hvs (by omega)]
  cases hlast : vs.getLast? with
  | none => simp
  | some v =>
      have hv : v < 64 := hvs v (List.mem_of_getLast? hlast)
      simp [(idxOf_char v hv).2]

/-- Reading undoes writing, and writing takes four characters for three bytes. The texts that are
read are the padded ones, and such a text is written again for the bytes that were read unless
bits of its last character that fill no byte are set. -/
theorem codec_exact (x s : Bytes) :
    decode (encode x) = some x ∧ (encode x).length = 4 * ((x.length + 2) / 3) ∧
      ((∃ y, decode s = some y) ↔ IsPadded s) ∧
      ∀ y, decode s = some y → (encode y = s ↔
        ∀ b ∈ (data s).getLast?, alphabet.idxOf b % 2 ^ spareBits (data s).length = 0) :=
  ⟨decode_encode x, length_encode x, isPadded_iff.symm, fun _ h => encode_of_decode_iff h⟩

/-- One of four spare bits is set, so the text is read, and another one is written. -/
theorem codec_exact_set_bit :
    decode "Zh==" = some (Bytes.ofString "f") ∧ IsPadded "Zh==" ∧
      encode "f" ≠ Bytes.ofString "Zh==" := by
  have hdecode : decode "Zh==" = some (Bytes.ofString "f") := by decide
  have hexact := codec_exact "f" "Zh=="
  refine ⟨hdecode, hexact.2.2.1.1 ⟨_, hdecode⟩, fun h => ?_⟩
  have hspare := (hexact.2.2.2 "f" hdecode).1 h 0x68 (by decide)
  exact absurd hspare (by decide)

end Base64

end SignedHttp
