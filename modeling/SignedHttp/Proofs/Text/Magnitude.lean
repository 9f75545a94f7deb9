import Mathlib.Data.BitVec
import Mathlib.Data.List.Induction
import Mathlib.Data.List.TakeWhile
import Mathlib.Tactic.Ring
import SignedHttp.Text.Decimal

/-!
# Numbers in Words of a Fixed Width

Reading a number without sign refuses what the width has no room for, and is exact for
all the rest.

The value of a text of digits is bounded on both sides by its length: it is less than
the power of ten with as many zeros (`value_lt`), and at least a tenth of that if the
first digit is not zero (`le_value`). So texts of different lengths compare by their
lengths, and only of as many digits do the digits matter (`exceeds_iff`). Zeros in front
change the length and not the value, which is why they are taken off first.

The digits are added up in words that wrap. The sum is right up to multiples of the
number of words whatever the text is (`addUp_reverse`), and a number that was not refused is
below that number.

A signed kind has half as many numbers on each side of zero, and one more below it. Its
reader goes from the magnitude to the number through words as well, and the number it
comes to is the magnitude with its sign whenever the kind contains that (`ofMagnitude_eq`).

## Theorems

* `value_cons`, `value_concat`: A digit in front of a text, and one behind it.
* `value_lt`, `le_value`: The value of a text of digits by its length.
* `exceeds_iff`: The comparison of texts is that of their values.
* `addUp_reverse`: What digits come to in words that wrap.
* `isTooGreat_iff`: What is refused is what the width has no room for.
* `magnitude_eq`: Which number is read, and what is left of the text.
* `contains_iff_of_signed`, `contains_iff_of_unsigned`: The range of a kind.
* `ofMagnitude_eq`: Which number of a kind a magnitude behind a sign is.
-/

namespace SignedHttp

namespace Decimal

/-- A digit behind a text counts once, and what is before it ten times. -/
theorem value_concat (s : Bytes) (b : UInt8) : value (s ++ [b]) = 10 * value s + digitValue b := by
  simp only [value, List.foldl_append, List.foldl_cons, List.foldl_nil]

/-- A digit counts as often as the digits behind it have values. -/
theorem value_cons (b : UInt8) (s : Bytes) :
    value (b :: s) = digitValue b * 10 ^ s.length + value s := by
  induction s using List.reverseRecOn with
  | nil => simp [value]
  | append_singleton s c ih =>
      rw [← List.cons_append, value_concat, value_concat, ih, List.length_append,
        List.length_singleton, pow_succ]
      ring

theorem digitValue_le {b : UInt8} (h : Ascii.isDigit b = true) : digitValue b ≤ 9 :=
  Ascii.forall_of_fin (p := fun b => Ascii.isDigit b = true → digitValue b ≤ 9)
    (by decide +kernel) b h

/-- The only digit without a value is the zero. -/
theorem digitValue_pos {b : UInt8} (h : Ascii.isDigit b = true) (hzero : b ≠ Ascii.zero) :
    0 < digitValue b :=
  Ascii.forall_of_fin (p := fun b => Ascii.isDigit b = true → b ≠ Ascii.zero → 0 < digitValue b)
    (by decide +kernel) b h hzero

/-- The value has no more digits than the text. -/
theorem value_lt {s : Bytes} (h : ∀ b ∈ s, Ascii.isDigit b = true) : value s < 10 ^ s.length := by
  induction s with
  | nil => exact Nat.one_pos
  | cons b s ih =>
      rw [List.forall_mem_cons] at h
      have hfirst := Nat.mul_le_mul_right (10 ^ s.length) (digitValue_le h.1)
      have hrest := ih h.2
      rw [value_cons, List.length_cons, pow_succ]
      omega

/-- A number whose first digit is not zero is at least the power of ten with as many digits. -/
theorem le_value {s : Bytes} (hne : s ≠ []) (h : ∀ b ∈ s, Ascii.isDigit b = true)
    (hfirst : s.head? ≠ some Ascii.zero) : 10 ^ (s.length - 1) ≤ value s := by
  cases s with
  | nil => exact absurd rfl hne
  | cons b s =>
      have hpos := digitValue_pos (h b (List.mem_cons_self ..)) fun hb => hfirst (by rw [hb]; rfl)
      have hweight := Nat.mul_le_mul_right (10 ^ s.length) hpos
      rw [value_cons, List.length_cons, Nat.add_sub_cancel]
      omega

/-- Zeros in front do not count. -/
theorem value_dropWhile_zero (s : Bytes) : value (s.dropWhile (· == Ascii.zero)) = value s := by
  induction s with
  | nil => rfl
  | cons b s ih =>
      by_cases hb : b = Ascii.zero
      · have hvalue : digitValue Ascii.zero = 0 := rfl
        rw [hb, List.dropWhile_cons, if_pos (beq_self_eq_true Ascii.zero), ih, value_cons, hvalue,
          Nat.zero_mul, Nat.zero_add]
      · rw [List.dropWhile_cons_of_neg (by simpa using hb)]

/-- Of two texts with as many digits, the first digits that differ decide which is greater. -/
theorem exceeds_iff {s t : Bytes} (hs : ∀ b ∈ s, Ascii.isDigit b = true)
    (ht : ∀ b ∈ t, Ascii.isDigit b = true) (hlength : s.length = t.length) :
    exceeds s t = true ↔ value t < value s := by
  induction s generalizing t with
  | nil =>
      rw [List.eq_nil_of_length_eq_zero hlength.symm]
      simp only [exceeds, Bool.false_eq_true, lt_self_iff_false]
  | cons b s ih =>
      cases t with
      | nil => cases hlength
      | cons c t =>
          rw [List.forall_mem_cons] at hs ht
          rw [List.length_cons, List.length_cons, Nat.add_right_cancel_iff] at hlength
          -- The digits behind the first one come to less than one of its units.
          have hvs := value_lt hs.2
          have hvt := value_lt ht.2
          rw [value_cons, value_cons, exceeds, ← hlength]
          rw [← hlength] at hvt
          rcases Nat.lt_trichotomy (digitValue c) (digitValue b) with hlt | heq | hgt
          · have hmore := Nat.mul_le_mul_right (10 ^ s.length) (Nat.succ_le_of_lt hlt)
            rw [Nat.succ_mul] at hmore
            rw [if_pos hlt]
            simp only [true_iff]
            omega
          · rw [heq, if_neg (Nat.lt_irrefl _), if_neg (Nat.lt_irrefl _), ih hs.2 ht.2 hlength]
            omega
          · have hless := Nat.mul_le_mul_right (10 ^ s.length) (Nat.succ_le_of_lt hgt)
            rw [Nat.succ_mul] at hless
            rw [if_neg (Nat.not_lt_of_gt hgt), if_pos hgt]
            simp only [Bool.false_eq_true, false_iff]
            omega

/-- In words that wrap, the digits come to their value up to multiples of the number of words. -/
theorem addUp_reverse (bits sum weight : Nat) (s : Bytes) :
    addUp s.reverse (BitVec.ofNat bits sum) (BitVec.ofNat bits weight)
      = BitVec.ofNat bits (sum + weight * value s) := by
  induction s using List.reverseRecOn generalizing sum weight with
  | nil => rw [List.reverse_nil, addUp, value, List.foldl_nil, Nat.mul_zero, Nat.add_zero]
  | append_singleton s b ih =>
      have hten : (10 : BitVec bits) = BitVec.ofNat bits 10 := rfl
      rw [List.reverse_concat, addUp, hten, ← BitVec.ofNat_mul, ← BitVec.ofNat_mul,
        ← BitVec.ofNat_add, ih, value_concat]
      congr 1
      ring

end Decimal

namespace Width

variable {w : Width}

theorem bits_pos (w : Width) : 0 < w.bits := by
  cases w <;> decide

theorem value_greatestText (w : Width) : Decimal.value w.greatestText + 1 = 2 ^ w.bits := by
  cases w <;> rfl

theorem isDigit_greatestText (w : Width) : ∀ b ∈ w.greatestText, Ascii.isDigit b = true := by
  refine List.all_eq_true.1 ?_
  cases w <;> rfl

theorem greatestText_ne_nil (w : Width) : w.greatestText ≠ [] := by
  cases w <;> decide

/-- The text of the greatest number begins with no zero, as those that are compared with it. -/
theorem head?_greatestText (w : Width) : w.greatestText.head? ≠ some Ascii.zero := by
  cases w <;> decide

/-- The comparison of texts refuses the numbers that the width has no room for. -/
theorem isTooGreat_iff {s : Bytes} (hne : s ≠ []) (hs : ∀ b ∈ s, Ascii.isDigit b = true)
    (hfirst : s.head? ≠ some Ascii.zero) :
    w.isTooGreat s = true ↔ 2 ^ w.bits ≤ Decimal.value s := by
  have hgreatest := value_greatestText w
  have hbound := Decimal.value_lt (isDigit_greatestText w)
  have hbelow := Decimal.value_lt hs
  rw [isTooGreat, Bool.or_eq_true, Bool.and_eq_true, decide_eq_true_eq, beq_iff_eq]
  -- By the lengths first, as in the comparison itself.
  rcases Nat.lt_trichotomy s.length w.greatestText.length with hshort | hsame | hlong
  · -- Fewer digits are less than the power of ten that the greatest number begins with.
    have hleast := Decimal.le_value (greatestText_ne_nil w) (isDigit_greatestText w)
      (head?_greatestText w)
    have hpow : 10 ^ s.length ≤ 10 ^ (w.greatestText.length - 1) :=
      Nat.pow_le_pow_right (by decide) (by omega)
    omega
  · rw [Decimal.exceeds_iff hs (isDigit_greatestText w) hsame]
    omega
  · have hleast := Decimal.le_value hne hs hfirst
    have hpow : 10 ^ w.greatestText.length ≤ 10 ^ (s.length - 1) :=
      Nat.pow_le_pow_right (by decide) (by omega)
    omega

/-- Behind the leading zeros of a text stand the same digits, less these zeros. -/
theorem takeWhile_dropWhile_zero (s : Bytes) :
    (s.dropWhile (· == Ascii.zero)).takeWhile Ascii.isDigit
      = (s.takeWhile Ascii.isDigit).dropWhile (· == Ascii.zero) := by
  have hzero : Ascii.isDigit Ascii.zero = true := by decide
  induction s with
  | nil => rfl
  | cons b s ih =>
      by_cases hb : b = Ascii.zero
      · rw [hb, List.dropWhile_cons, if_pos (beq_self_eq_true Ascii.zero), ih,
          List.takeWhile_cons_of_pos hzero, List.dropWhile_cons,
          if_pos (beq_self_eq_true Ascii.zero)]
      · have hne : ¬ (b == Ascii.zero) = true := by simpa using hb
        rw [List.dropWhile_cons, if_neg hne]
        by_cases hdigit : Ascii.isDigit b = true
        · rw [List.takeWhile_cons_of_pos hdigit, List.dropWhile_cons, if_neg hne]
        · rw [List.takeWhile_cons_of_neg hdigit]
          rfl

/-- Zeros are digits, so what follows the digits is the same without them. -/
theorem dropWhile_dropWhile_zero (s : Bytes) :
    (s.dropWhile (· == Ascii.zero)).dropWhile Ascii.isDigit = s.dropWhile Ascii.isDigit := by
  have hzero : Ascii.isDigit Ascii.zero = true := by decide
  induction s with
  | nil => rfl
  | cons b s ih =>
      by_cases hb : b = Ascii.zero
      · rw [hb, List.dropWhile_cons, if_pos (beq_self_eq_true Ascii.zero), ih,
          List.dropWhile_cons_of_pos hzero]
      · have hne : ¬ (b == Ascii.zero) = true := by simpa using hb
        rw [List.dropWhile_cons, if_neg hne]

/-- What follows the leading zeros begins with no zero. -/
theorem head?_dropWhile_zero (s : Bytes) :
    (s.dropWhile (· == Ascii.zero)).head? ≠ some Ascii.zero := by
  intro h
  have hnot := List.head?_dropWhile_not (· == Ascii.zero) s
  rw [h] at hnot
  exact absurd hnot (by decide)

/-- A number without sign is read if there are digits and the width has room for their value, and
all of the digits are taken. -/
theorem magnitude_eq (w : Width) (s : Bytes) :
    w.magnitude s
      = if s.takeWhile Ascii.isDigit = [] then (none, s)
        else if 2 ^ w.bits ≤ Decimal.value (s.takeWhile Ascii.isDigit) then (none, s)
        else (some (BitVec.ofNat w.bits (Decimal.value (s.takeWhile Ascii.isDigit))),
          s.dropWhile Ascii.isDigit) := by
  have hdigits : ∀ b ∈ (s.dropWhile (· == Ascii.zero)).takeWhile Ascii.isDigit,
      Ascii.isDigit b = true := fun b hb => List.mem_takeWhile_imp hb
  rw [magnitude, ← dropWhile_dropWhile_zero s, ← Decimal.value_dropWhile_zero (s.takeWhile _),
    ← takeWhile_dropWhile_zero]
  by_cases hnil : (s.dropWhile (· == Ascii.zero)).takeWhile Ascii.isDigit = []
  · rw [hnil, if_pos List.isEmpty_nil]
    have hrest : (s.dropWhile (· == Ascii.zero)).dropWhile Ascii.isDigit
        = s.dropWhile (· == Ascii.zero) := by
      have happend := List.takeWhile_append_dropWhile
        (p := Ascii.isDigit) (l := s.dropWhile (· == Ascii.zero))
      rwa [hnil, List.nil_append] at happend
    by_cases hzero : s.head? = some Ascii.zero
    · -- Zeros only: digits of which none is left.
      have hne : s.takeWhile Ascii.isDigit ≠ [] := by
        rcases List.head?_eq_some_iff.1 hzero with ⟨t, rfl⟩
        exact List.cons_ne_nil _ _
      have hroom : ¬ 2 ^ w.bits ≤ Decimal.value [] := Nat.not_le_of_gt (Nat.two_pow_pos _)
      rw [if_pos hzero, if_neg hne, if_neg hroom, hrest]
      rfl
    · have hnone : s.takeWhile Ascii.isDigit = [] := by
        have hsame : s.dropWhile (· == Ascii.zero) = s := by
          cases s with
          | nil => rfl
          | cons b s =>
              rw [List.dropWhile_cons, if_neg]
              exact fun hb => hzero (by rw [beq_iff_eq.1 hb]; rfl)
        rw [← hnil, hsame]
      rw [if_neg hzero, if_pos hnone]
  · have hne : s.takeWhile Ascii.isDigit ≠ [] := by
      intro h
      rw [takeWhile_dropWhile_zero, h] at hnil
      exact hnil rfl
    have hfirst : ((s.dropWhile (· == Ascii.zero)).takeWhile Ascii.isDigit).head?
        ≠ some Ascii.zero := by
      rw [takeWhile_dropWhile_zero]
      exact head?_dropWhile_zero _
    have hgreat := isTooGreat_iff (w := w) hnil hdigits hfirst
    have hsum := Decimal.addUp_reverse w.bits 0 1
      ((s.dropWhile (· == Ascii.zero)).takeWhile Ascii.isDigit)
    rw [Nat.zero_add, Nat.one_mul] at hsum
    rw [if_neg fun h => hnil (List.isEmpty_iff.1 h), if_neg hne]
    by_cases hroom : 2 ^ w.bits
        ≤ Decimal.value ((s.dropWhile (· == Ascii.zero)).takeWhile Ascii.isDigit)
    · rw [if_pos hroom, if_pos (hgreat.2 hroom)]
    · rw [if_neg hroom, if_neg (mt hgreat.1 hroom)]
      exact congrArg (fun m => (some m, _)) hsum

end Width

namespace IntKind

variable {k : IntKind}

/-- Without the sign bit there are half as many words. -/
theorem two_pow_bits (k : IntKind) : 2 ^ k.bits = 2 * 2 ^ (k.bits - 1) := by
  rw [← Nat.pow_succ', Nat.succ_eq_add_one, Nat.sub_add_cancel k.width.bits_pos]

theorem contains_iff_of_unsigned (h : k.signed = false) {v : Int} :
    k.contains v = true ↔ 0 ≤ v ∧ v < 2 ^ k.bits := by
  simp only [contains, least, greatest, h, Bool.false_eq_true, if_false, Bool.and_eq_true,
    decide_eq_true_eq, Nat.pow_eq, Nat.cast_pow, Nat.cast_ofNat, Int.le_sub_one_iff]

/-- A kind with signs contains half as many numbers on each side of zero. -/
theorem contains_iff_of_signed (h : k.signed = true) {v : Int} :
    k.contains v = true ↔ -2 ^ (k.bits - 1) ≤ v ∧ v < 2 ^ (k.bits - 1) := by
  simp only [contains, least, greatest, h, if_true, Bool.and_eq_true, decide_eq_true_eq,
    Nat.pow_eq, Nat.cast_pow, Nat.cast_ofNat, Int.le_sub_one_iff]

/-- A number of a signed kind is what its own word stands for. -/
theorem toInt_ofInt_of_contains (h : k.signed = true) {v : Int} (hv : k.contains v = true) :
    (BitVec.ofInt k.bits v).toInt = v := by
  rw [contains_iff_of_signed h] at hv
  exact BitVec.toInt_ofInt_eq_self k.width.bits_pos hv.1 hv.2

/-- The word of the greatest number of a signed kind. -/
theorem ofInt_greatest (h : k.signed = true) :
    BitVec.ofInt k.bits k.greatest = BitVec.ofNat k.bits (2 ^ (k.bits - 1) - 1) := by
  rw [greatest, if_pos h, ← BitVec.ofInt_natCast, Nat.pow_eq,
    Int.natCast_sub (Nat.two_pow_pos _)]
  rfl

variable {n : Nat}

/-- Without signs the magnitude is the number. -/
theorem ofMagnitude_unsigned (hsigned : k.signed = false) (hroom : n < 2 ^ k.bits) :
    k.ofMagnitude false (BitVec.ofNat k.bits n)
      = if k.contains n = true then some (n : Int) else none := by
  have hcontains : k.contains n = true := by
    rw [contains_iff_of_unsigned hsigned]
    exact ⟨Int.natCast_nonneg n, by exact_mod_cast hroom⟩
  rw [ofMagnitude, if_pos (by rw [hsigned]; rfl), if_pos hcontains, BitVec.toNat_ofNat,
    Nat.mod_eq_of_lt hroom]

/-- Zero is a number of every kind, behind either sign. -/
theorem ofMagnitude_zero (hsigned : k.signed = true) (negative : Bool) :
    k.ofMagnitude negative (BitVec.ofNat k.bits 0) = some 0 := by
  rw [ofMagnitude, if_neg (by rw [hsigned]; decide),
    if_pos (show BitVec.ofNat k.bits 0 = 0 from rfl)]

theorem ofNat_ne_zero (hpos : 0 < n) (hroom : n < 2 ^ k.bits) : BitVec.ofNat k.bits n ≠ 0 := by
  intro h
  have hn := congrArg BitVec.toNat h
  rw [BitVec.toNat_ofNat, Nat.mod_eq_of_lt hroom] at hn
  exact Nat.ne_of_gt hpos hn

/-- A positive magnitude is the number, unless it is beyond the greatest one. -/
theorem ofMagnitude_plus (hsigned : k.signed = true) (hpos : 0 < n) (hroom : n < 2 ^ k.bits) :
    k.ofMagnitude false (BitVec.ofNat k.bits n)
      = if k.contains n = true then some (n : Int) else none := by
  have hhalf := two_pow_bits k
  have hcast : ((2 ^ (k.bits - 1) : Nat) : Int) = 2 ^ (k.bits - 1) := Nat.cast_pow 2 _
  have hlt : BitVec.ofNat k.bits (2 ^ (k.bits - 1) - 1) < BitVec.ofNat k.bits n
      ↔ ¬ k.contains n = true := by
    rw [BitVec.ofNat_lt_ofNat, Nat.mod_eq_of_lt hroom, Nat.mod_eq_of_lt (by omega),
      contains_iff_of_signed hsigned]
    omega
  rw [ofMagnitude, if_neg (by rw [hsigned]; decide), if_neg (ofNat_ne_zero hpos hroom),
    if_neg Bool.false_ne_true, ofInt_greatest hsigned]
  by_cases hcontains : k.contains n = true
  · rw [if_neg (mt hlt.1 (not_not_intro hcontains)), if_pos hcontains, ← BitVec.ofInt_natCast,
      toInt_ofInt_of_contains hsigned hcontains]
  · rw [if_pos (hlt.2 hcontains), if_neg hcontains]

/-- Behind a minus sign it is the negative number, and there is one more of these. -/
theorem ofMagnitude_minus (hsigned : k.signed = true) (hpos : 0 < n) (hroom : n < 2 ^ k.bits) :
    k.ofMagnitude true (BitVec.ofNat k.bits n)
      = if k.contains (-n) = true then some (-n : Int) else none := by
  have hhalf := two_pow_bits k
  have hcast : ((2 ^ (k.bits - 1) : Nat) : Int) = 2 ^ (k.bits - 1) := Nat.cast_pow 2 _
  have hone : BitVec.ofNat k.bits n - 1 = BitVec.ofNat k.bits (n - 1) :=
    BitVec.ofNat_sub_ofNat_of_le n 1 (by omega) hpos
  -- One is taken off before the comparison, because there is one more number below zero.
  have hle : BitVec.ofNat k.bits n - 1 ≤ BitVec.ofNat k.bits (2 ^ (k.bits - 1) - 1)
      ↔ k.contains (-n) = true := by
    rw [hone, BitVec.ofNat_le_ofNat, Nat.mod_eq_of_lt (by omega), Nat.mod_eq_of_lt (by omega),
      contains_iff_of_signed hsigned]
    omega
  -- The one that was taken off before the sign was put on is taken off again behind it.
  have hword : -(BitVec.ofNat k.bits n - 1) - 1 = BitVec.ofInt k.bits (-n) := by
    rw [BitVec.ofInt_neg, BitVec.ofInt_natCast]
    ring
  rw [ofMagnitude, if_neg (by rw [hsigned]; decide), if_neg (ofNat_ne_zero hpos hroom),
    if_pos rfl, ofInt_greatest hsigned]
  by_cases hcontains : k.contains (-n) = true
  · rw [if_pos (hle.2 hcontains), if_pos hcontains, hword,
      toInt_ofInt_of_contains hsigned hcontains]
  · rw [if_neg (mt hle.1 hcontains), if_neg hcontains]

/-- Of a magnitude that the width has no room for, no kind of the width contains the number. -/
theorem not_contains_of_le (h : 2 ^ k.bits ≤ n) (negative : Bool) :
    ¬ k.contains (if negative then -(n : Int) else n) = true := by
  have hhalf := two_pow_bits k
  have hcast : ((2 ^ k.bits : Nat) : Int) = 2 ^ k.bits := Nat.cast_pow 2 _
  have hcast' : ((2 ^ (k.bits - 1) : Nat) : Int) = 2 ^ (k.bits - 1) := Nat.cast_pow 2 _
  have hpos := Nat.two_pow_pos (k.bits - 1)
  cases hsigned : k.signed with
  | false =>
      rw [contains_iff_of_unsigned hsigned]
      cases negative <;> simp only [Bool.false_eq_true, if_false, if_true] <;> omega
  | true =>
      rw [contains_iff_of_signed hsigned]
      cases negative <;> simp only [Bool.false_eq_true, if_false, if_true] <;> omega

/-- A magnitude that the width has room for becomes a number, with its sign, if the kind contains
that number. -/
theorem ofMagnitude_eq {negative : Bool} (hsign : negative = true → k.signed = true)
    (hroom : n < 2 ^ k.bits) :
    k.ofMagnitude negative (BitVec.ofNat k.bits n)
      = if k.contains (if negative then -(n : Int) else n) = true then
          some (if negative then -(n : Int) else n)
        else none := by
  cases hsigned : k.signed with
  | false =>
      have hplus : negative = false := by simpa [hsigned] using hsign
      rw [hplus]
      exact ofMagnitude_unsigned hsigned hroom
  | true =>
      -- Zero is treated apart by the reader, and so here.
      rcases Nat.eq_zero_or_pos n with rfl | hpos
      · have hcontains : k.contains 0 = true := by
          have hhalf : (0 : Int) < 2 ^ (k.bits - 1) := Int.pow_pos (by decide)
          rw [contains_iff_of_signed hsigned]
          omega
        rw [ofMagnitude_zero hsigned]
        cases negative <;> exact (if_pos hcontains).symm
      · cases negative with
        | false => exact ofMagnitude_plus hsigned hpos hroom
        | true => exact ofMagnitude_minus hsigned hpos hroom

end IntKind

end SignedHttp
