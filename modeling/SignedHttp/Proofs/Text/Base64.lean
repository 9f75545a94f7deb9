import SignedHttp.Text.Base64

/-!
# Base 64 Is Read Back

A text that was written in base 64 is read as the bytes it was written for.

Writing and reading have a sequence of six-bit values between them. On the way out
the bytes are regrouped into such values and each becomes a character; on the way
in the padding is taken off, each character becomes its value, and the values are
regrouped. So there are two facts to know, that regrouping there and back loses
nothing and that no value has the padding for its character.

## Main definitions

* `sextets`: The six-bit values that bytes are regrouped into.
* `padding`: How many padding characters complete the text.

## Theorems

* `ofSextets_sextets`: Regrouping there and back gives the bytes.
* `decode_chars`: What is read of characters and padding.
* `decode_encode`: Reading undoes writing.
-/

namespace SignedHttp

namespace Base64

/-- The six-bit values of a byte sequence, the last one filled up with zeros. -/
def sextets : Bytes → List UInt8
  | [] => []
  | [a] => [a >>> 2, (a &&& 3) <<< 4]
  | [a, b] => [a >>> 2, (a &&& 3) <<< 4 ||| b >>> 4, (b &&& 15) <<< 2]
  | a :: b :: c :: s =>
    a >>> 2 :: ((a &&& 3) <<< 4 ||| b >>> 4) :: ((b &&& 15) <<< 2 ||| c >>> 6) :: (c &&& 63)
      :: sextets s

/-- How many padding characters complete the text of a byte sequence. -/
def padding : Bytes → Nat
  | [] => 0
  | [_] => 2
  | [_, _] => 1
  | _ :: _ :: _ :: s => padding s

/-- What is written is the characters of the values, and the padding. -/
theorem encode_eq (x : Bytes) :
    encode x = (sextets x).map char ++ List.replicate (padding x) Ascii.equals := by
  fun_induction encode x with
  | case1 => rfl
  | case2 a => rfl
  | case3 a b => rfl
  | case4 a b c s ih => rw [ih, sextets, padding]; rfl

theorem padding_le (x : Bytes) : padding x ≤ 2 := by
  fun_induction padding x <;> omega

/-- The padding fills up the last group of four. -/
theorem length_sextets (x : Bytes) : ((sextets x).length + padding x) % 4 = 0 := by
  fun_induction sextets x with
  | case1 => rfl
  | case2 a => simp only [padding, List.length_cons, List.length_nil]
  | case3 a b => simp only [padding, List.length_cons, List.length_nil]
  | case4 a b c s ih =>
      rw [padding]
      simp only [List.length_cons]
      omega

/-- The parts of a byte that are shifted apart are together the byte again. -/
theorem regroup (b : UInt8) :
    (b >>> 2) <<< 2 ||| ((b &&& 3) <<< 4) >>> 4 = b ∧
      (b >>> 4) <<< 4 ||| ((b &&& 15) <<< 2) >>> 2 = b ∧ (b >>> 6) <<< 6 ||| b &&& 63 = b :=
  Ascii.forall_of_fin (p := fun b => (b >>> 2) <<< 2 ||| ((b &&& 3) <<< 4) >>> 4 = b ∧
    (b >>> 4) <<< 4 ||| ((b &&& 15) <<< 2) >>> 2 = b ∧ (b >>> 6) <<< 6 ||| b &&& 63 = b)
    (by decide +kernel) b

/-- What is shifted out on either side is gone. -/
theorem shift_out (b : UInt8) :
    (b >>> 4) >>> 4 = 0 ∧ (b >>> 6) >>> 2 = 0 ∧ ((b &&& 3) <<< 4) <<< 4 = 0 ∧
      ((b &&& 15) <<< 2) <<< 6 = 0 :=
  Ascii.forall_of_fin (p := fun b => (b >>> 4) >>> 4 = 0 ∧ (b >>> 6) >>> 2 = 0 ∧
    ((b &&& 3) <<< 4) <<< 4 = 0 ∧ ((b &&& 15) <<< 2) <<< 6 = 0) (by decide +kernel) b

/-- Regrouping into values and back loses nothing. -/
theorem ofSextets_sextets (x : Bytes) : ofSextets (sextets x) = x := by
  fun_induction sextets x with
  -- Along the groups of three bytes; only a last group has fewer.
  | case1 => rfl
  | case2 a => rw [ofSextets, (regroup a).1]
  | case3 a b =>
      simp only [ofSextets, UInt8.shiftRight_or, UInt8.shiftLeft_or]
      rw [(shift_out b).1, (shift_out a).2.2.1, UInt8.or_zero, UInt8.zero_or, (regroup a).1,
        (regroup b).2.1]
  | case4 a b c s ih =>
      -- Three bytes are in four values: each but the first and last is of two bytes.
      simp only [ofSextets, UInt8.shiftRight_or, UInt8.shiftLeft_or]
      rw [ih, (shift_out b).1, (shift_out a).2.2.1, (shift_out c).2.1, (shift_out b).2.2.2]
      simp only [UInt8.or_zero, UInt8.zero_or]
      rw [(regroup a).1, (regroup b).2.1, (regroup c).2.2]

/-- Each part that is shifted into a value leaves its two upper bits free. -/
theorem part_lt (b : UInt8) :
    b >>> 2 < 64 ∧ b >>> 4 < 64 ∧ b >>> 6 < 64 ∧ (b &&& 3) <<< 4 < 64 ∧ (b &&& 15) <<< 2 < 64 ∧
      b &&& 63 < 64 :=
  Ascii.forall_of_fin (p := fun b => b >>> 2 < 64 ∧ b >>> 4 < 64 ∧ b >>> 6 < 64 ∧
    (b &&& 3) <<< 4 < 64 ∧ (b &&& 15) <<< 2 < 64 ∧ b &&& 63 < 64) (by decide +kernel) b

theorem or_lt {x y : UInt8} (hx : x < 64) (hy : y < 64) : x ||| y < 64 := by
  rw [UInt8.lt_iff_toNat_lt] at hx hy ⊢
  rw [UInt8.toNat_or]
  exact Nat.or_lt_two_pow (n := 6) hx hy

/-- All values are of six bits. -/
theorem lt_of_mem_sextets (x : Bytes) : ∀ v ∈ sextets x, v < 64 := by
  fun_induction sextets x with
  | case1 => simp only [List.not_mem_nil, false_imp_iff, implies_true]
  | case2 a =>
      simp only [List.forall_mem_cons, List.not_mem_nil, false_imp_iff, implies_true, and_true]
      exact ⟨(part_lt a).1, (part_lt a).2.2.2.1⟩
  | case3 a b =>
      simp only [List.forall_mem_cons, List.not_mem_nil, false_imp_iff, implies_true, and_true]
      exact ⟨(part_lt a).1, or_lt (part_lt a).2.2.2.1 (part_lt b).2.1, (part_lt b).2.2.2.2.1⟩
  | case4 a b c s ih =>
      simp only [List.forall_mem_cons]
      exact ⟨(part_lt a).1, or_lt (part_lt a).2.2.2.1 (part_lt b).2.1,
        or_lt (part_lt b).2.2.2.2.1 (part_lt c).2.2.1, (part_lt c).2.2.2.2.2, ih⟩

/-- The character of a value stands for it, and is neither padding nor a delimiter. -/
theorem char_spec (v : UInt8) : v < 64 →
    charValue (char v) = some v ∧ char v ≠ Ascii.equals ∧ char v ≠ Ascii.colon :=
  Ascii.forall_of_fin (p := fun v => v < 64 →
    charValue (char v) = some v ∧ char v ≠ Ascii.equals ∧ char v ≠ Ascii.colon)
    (by decide +kernel) v

theorem mapM_charValue {vs : List UInt8} (h : ∀ v ∈ vs, v < 64) :
    (vs.map char).mapM charValue = some vs := by
  -- By induction on the values, each of which is read by itself.
  induction vs with
  | nil => rfl
  | cons v vs ih =>
      rw [List.forall_mem_cons] at h
      rw [List.map_cons, List.mapM_cons, (char_spec v h.1).1, ih h.2]
      rfl

/-- No value is written as the padding or as the delimiter. -/
theorem ne_of_mem_chars {x : Bytes} {b : UInt8} (h : b ∈ (sextets x).map char) :
    b ≠ Ascii.equals ∧ b ≠ Ascii.colon := by
  rcases List.mem_map.1 h with ⟨v, hv, rfl⟩
  exact (char_spec v (lt_of_mem_sextets x v hv)).2

theorem equals_not_mem_chars {vs : List UInt8} (hvs : ∀ v ∈ vs, v < 64) :
    Ascii.equals ∉ vs.map char := by
  intro h
  rcases List.mem_map.1 h with ⟨v, hv, hchar⟩
  exact (char_spec v (hvs v hv)).2.1 hchar

/-- Values and padding in groups of four are read as the whole bytes in the values. -/
theorem decode_chars {vs : List UInt8} {n : Nat} (hvs : ∀ v ∈ vs, v < 64) (hn : n ≤ 2)
    (hlength : (vs.length + n) % 4 = 0) :
    decode (vs.map char ++ List.replicate n Ascii.equals) = some (ofSextets vs) := by
  -- No value is written as the padding, so the padding can be counted.
  have hcount : (vs.map char ++ List.replicate n Ascii.equals).count Ascii.equals = n := by
    rw [List.count_append, List.count_replicate_self,
      List.count_eq_zero_of_not_mem (equals_not_mem_chars hvs), Nat.zero_add]
  have hlen : (vs.map char ++ List.replicate n Ascii.equals).length = vs.length + n := by
    rw [List.length_append, List.length_map, List.length_replicate]
  have htake : (vs.map char ++ List.replicate n Ascii.equals).take vs.length = vs.map char :=
    List.take_left' (List.length_map _)
  rw [decode, hcount, hlen, Nat.add_sub_cancel, htake, mapM_charValue hvs, if_neg (by omega),
    Option.map_some]

theorem decode_encode (x : Bytes) : decode (encode x) = some x := by
  rw [encode_eq, decode_chars (lt_of_mem_sextets x) (padding_le x) (length_sextets x),
    ofSextets_sextets]

theorem encode_ne_nil {x : Bytes} (hx : x ≠ []) : encode x ≠ [] := by
  intro h
  have hdecode := decode_encode x
  rw [h] at hdecode
  exact hx (Option.some.inj hdecode).symm

theorem colon_not_mem_encode (x : Bytes) : Ascii.colon ∉ encode x := by
  rw [encode_eq, List.mem_append]
  intro h
  rcases h with h | h
  · exact (ne_of_mem_chars h).2 rfl
  · exact absurd (List.eq_of_mem_replicate h) (by decide)

end Base64

end SignedHttp
