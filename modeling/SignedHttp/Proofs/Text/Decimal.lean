import Mathlib.Data.List.TakeWhile
import SignedHttp.Proofs.Text.Magnitude

/-!
# Decimal Round Trip

Writing an integer and reading it back as a machine integer.

Writing goes from the last digit to the first: the text of a number is that of a
tenth of it, and one digit more. Reading goes the other way, but the value of a
text of digits also takes its last digit off the end (`value_concat`), and so the
two recursions meet. The sign is no digit, so a number that was written is read in
the only way there is.

Reading is bounded by the kind, writing is not. The bound enters in one place, the
hypothesis that the number is one of the kind.

More texts are read than are written: there may be zeros in front, and a plus sign.
`Numeral` lists the texts and their values by their form, and these are all that is
read (`wholeNumber_eq_some_iff`).

## Main definitions

* `IntKind.Numeral`: A text of digits behind a sign, and its value.

## Theorems

* `value_ofNat`: The digits of a number have its value.
* `ofInt_injective`: Different integers have different texts.
* `mem_ofInt`: A written integer consists of digits and a sign.
* `wholeNumber_eq_some_iff`: The texts that are read, and as which number.
* `contains_of_wholeNumber`: A number that is read is one of the kind.
* `wholeNumber_ofInt`: A number of the kind is read back as it was written.
-/

namespace SignedHttp

namespace Decimal

theorem ofNat_of_lt {n : Nat} (h : n < 10) : ofNat n = [digit n] := by
  rw [ofNat, if_pos h]

theorem ofNat_of_ge {n : Nat} (h : 10 ≤ n) : ofNat n = ofNat (n / 10) ++ [digit (n % 10)] := by
  rw [ofNat, if_neg (by omega)]

theorem isDigit_digit {d : Nat} (h : d < 10) : Ascii.isDigit (digit d) = true := by
  have hall : ∀ i : Fin 10, Ascii.isDigit (digit i) = true := by decide
  exact hall ⟨d, h⟩

theorem digitValue_digit {d : Nat} (h : d < 10) : digitValue (digit d) = d := by
  have hall : ∀ i : Fin 10, digitValue (digit i) = i := by decide
  exact hall ⟨d, h⟩

theorem ofNat_ne_nil (n : Nat) : ofNat n ≠ [] := by
  by_cases h : n < 10
  · rw [ofNat_of_lt h]
    exact List.cons_ne_nil _ _
  · rw [ofNat_of_ge (by omega)]
    exact List.append_ne_nil_of_right_ne_nil _ (List.cons_ne_nil _ _)

theorem isDigit_of_mem_ofNat (n : Nat) : ∀ b ∈ ofNat n, Ascii.isDigit b = true := by
  -- Along the recursion of writing, as for the value.
  induction n using Nat.strongRecOn with
  | _ n ih =>
      intro b hb
      by_cases h : n < 10
      · rw [ofNat_of_lt h, List.mem_singleton] at hb
        rw [hb]
        exact isDigit_digit h
      · rw [ofNat_of_ge (by omega), List.mem_append, List.mem_singleton] at hb
        rcases hb with hb | hb
        · exact ih (n / 10) (by omega) b hb
        · rw [hb]
          exact isDigit_digit (by omega)

/-- The digits of a number have its value. -/
theorem value_ofNat (n : Nat) : value (ofNat n) = n := by
  -- Along the recursion of writing, with the last digit taken off the text.
  induction n using Nat.strongRecOn with
  | _ n ih =>
      by_cases h : n < 10
      · rw [ofNat_of_lt h]
        simp only [value, List.foldl_cons, List.foldl_nil, digitValue_digit h]
        omega
      · rw [ofNat_of_ge (by omega), value_concat, ih (n / 10) (by omega),
          digitValue_digit (by omega)]
        omega

theorem ofNat_injective {m n : Nat} (h : ofNat m = ofNat n) : m = n := by
  rw [← value_ofNat m, h, value_ofNat]

theorem minus_not_mem_ofNat (n : Nat) : Ascii.minus ∉ ofNat n := fun h =>
  absurd (isDigit_of_mem_ofNat n _ h) (by decide)

theorem ofInt_injective {v w : Int} (h : ofInt v = ofInt w) : v = w := by
  cases v with
  | ofNat m =>
      cases w with
      | ofNat n => rw [ofNat_injective h]
      | negSucc n =>
          -- Only a negative number begins with a sign.
          have hm : Ascii.minus ∈ ofNat m := by
            change ofNat m = Ascii.minus :: ofNat (n + 1) at h
            rw [h]
            exact List.mem_cons_self ..
          exact absurd hm (minus_not_mem_ofNat m)
  | negSucc m =>
      cases w with
      | ofNat n =>
          have hn : Ascii.minus ∈ ofNat n := by
            change Ascii.minus :: ofNat (m + 1) = ofNat n at h
            rw [← h]
            exact List.mem_cons_self ..
          exact absurd hn (minus_not_mem_ofNat n)
      | negSucc n =>
          have hmn := ofNat_injective (List.cons.inj h).2
          rw [show m = n by omega]

/-- A written integer consists of digits and a sign. -/
theorem mem_ofInt {v : Int} {b : UInt8} (h : b ∈ ofInt v) :
    Ascii.isDigit b = true ∨ b = Ascii.minus := by
  cases v with
  | ofNat n => exact Or.inl (isDigit_of_mem_ofNat n b h)
  | negSucc n =>
      rcases List.mem_cons.1 h with h | h
      · exact Or.inr h
      · exact Or.inl (isDigit_of_mem_ofNat _ b h)

theorem ofInt_ne_nil (v : Int) : ofInt v ≠ [] := by
  cases v with
  | ofNat n => exact ofNat_ne_nil n
  | negSucc n => exact List.cons_ne_nil _ _

/-- No byte that is neither a digit nor the minus sign stands in a written integer. -/
theorem not_mem_ofInt {v : Int} {b : UInt8} (hd : Ascii.isDigit b = false)
    (hm : b ≠ Ascii.minus) : b ∉ ofInt v := fun h => by
  rcases mem_ofInt h with hb | hb
  · rw [hd] at hb
    exact Bool.false_ne_true hb
  · exact hm hb

end Decimal

namespace IntKind

variable {k : IntKind}

/-- A digit is no sign, of whatever kind the number is. -/
theorem sign_of_digits {s : Bytes} (h : ∀ b ∈ s, Ascii.isDigit b = true) :
    k.sign s = (false, s) := by
  cases s with
  | nil => rfl
  | cons b s =>
      have hb := h b (List.mem_cons_self ..)
      have hplus : (b == Ascii.plus) = false := by
        rw [beq_eq_false_iff_ne]
        intro h
        subst h
        exact absurd hb (by decide)
      have hminus : (b == Ascii.minus) = false := by
        rw [beq_eq_false_iff_ne]
        intro h
        subst h
        exact absurd hb (by decide)
      simp only [sign, hplus, hminus, Bool.and_false, Bool.false_eq_true, if_false]

/-- A kind with a negative number has signs. -/
theorem signed_of_contains_neg {n : Nat} (h : k.contains (.negSucc n) = true) :
    k.signed = true := by
  cases hs : k.signed with
  | true => rfl
  | false =>
      simp only [contains, least, hs, Bool.false_eq_true, if_false, Bool.and_eq_true,
        decide_eq_true_eq] at h
      omega

/-- The texts of numbers of a kind: digits, behind a sign if the kind has signs. -/
inductive Numeral (k : IntKind) : Bytes → Int → Prop
  | digits {s : Bytes} (hne : s ≠ []) (hs : ∀ b ∈ s, Ascii.isDigit b = true) :
      Numeral k s (Decimal.value s)
  | plus {s : Bytes} (hsigned : k.signed = true) (hne : s ≠ [])
      (hs : ∀ b ∈ s, Ascii.isDigit b = true) : Numeral k (Ascii.plus :: s) (Decimal.value s)
  | minus {s : Bytes} (hsigned : k.signed = true) (hne : s ≠ [])
      (hs : ∀ b ∈ s, Ascii.isDigit b = true) : Numeral k (Ascii.minus :: s) (-Decimal.value s)

/-- A text begins with no sign, or with one that the kind has. -/
theorem sign_cases (k : IntKind) (s : Bytes) :
    k.sign s = (false, s) ∨
      (∃ t, s = Ascii.plus :: t ∧ k.signed = true ∧ k.sign s = (false, t)) ∨
      ∃ t, s = Ascii.minus :: t ∧ k.signed = true ∧ k.sign s = (true, t) := by
  cases s with
  | nil => exact Or.inl rfl
  | cons b t =>
      rw [sign]
      split
      · next hplus =>
        rw [Bool.and_eq_true, beq_iff_eq] at hplus
        exact Or.inr (Or.inl ⟨t, by rw [hplus.2], hplus.1, rfl⟩)
      · split
        · next hminus =>
          rw [Bool.and_eq_true, beq_iff_eq] at hminus
          exact Or.inr (Or.inr ⟨t, by rw [hminus.2], hminus.1, rfl⟩)
        · exact Or.inl rfl

/-- Only a kind with signs reads a minus sign. -/
theorem signed_of_sign {s body : Bytes} (h : k.sign s = (true, body)) : k.signed = true := by
  rcases sign_cases k s with hsign | ⟨t, -, hsigned, -⟩ | ⟨t, -, hsigned, -⟩
  · rw [hsign] at h
    cases h
  · exact hsigned
  · exact hsigned

/-- Behind the sign, all digits are taken if the number that they stand for is one of the kind,
and nothing is taken otherwise. -/
theorem number_of_sign {s body digits : Bytes} {negative : Bool} {v : Int}
    (hsign : k.sign s = (negative, body)) (hdigits : body.takeWhile Ascii.isDigit = digits)
    (hv : (if negative then -(Decimal.value digits : Int) else Decimal.value digits) = v) :
    k.number s
      = if digits = [] then (none, s)
        else if k.contains v = true then (some v, body.dropWhile Ascii.isDigit)
        else (none, s) := by
  have hsigned : negative = true → k.signed = true := by
    rintro rfl
    exact signed_of_sign hsign
  rw [number, hsign]
  simp only [Width.magnitude_eq, hdigits]
  by_cases hnil : digits = []
  · rw [if_pos hnil, if_pos hnil]
  · rw [if_neg hnil, if_neg hnil]
    -- The width is asked first, but what it has no room for the kind does not contain.
    by_cases hroom : 2 ^ k.bits ≤ Decimal.value digits
    · rw [if_pos hroom, if_neg (hv ▸ not_contains_of_le hroom negative)]
    · rw [if_neg hroom]
      simp only [ofMagnitude_eq hsigned (Nat.lt_of_not_le hroom), hv]
      by_cases hcontains : k.contains v = true
      · rw [if_pos hcontains, if_pos hcontains]
      · rw [if_neg hcontains, if_neg hcontains]

/-- A whole text is a number if there are digits behind the sign, and nothing else. -/
theorem wholeNumber_iff_of_sign {s body : Bytes} {negative : Bool} {v : Int}
    (hsign : k.sign s = (negative, body)) :
    k.wholeNumber s = some v ↔
      body ≠ [] ∧ (∀ b ∈ body, Ascii.isDigit b = true) ∧
        (if negative then -(Decimal.value body : Int) else Decimal.value body) = v ∧
        k.contains v = true := by
  have hnumber := number_of_sign hsign rfl rfl
  constructor
  · intro h
    rw [wholeNumber, hnumber] at h
    by_cases hne : body.takeWhile Ascii.isDigit = []
    · rw [if_pos hne] at h
      cases h
    · rw [if_neg hne] at h
      by_cases hcontains : k.contains (if negative then
          -(Decimal.value (body.takeWhile Ascii.isDigit) : Int)
          else Decimal.value (body.takeWhile Ascii.isDigit)) = true
      · rw [if_pos hcontains] at h
        split at h
        · next w hrest =>
          rw [Prod.mk.injEq, Option.some.injEq] at hrest
          -- Nothing is left behind the digits, so they are all there is.
          have hdigits : ∀ b ∈ body, Ascii.isDigit b = true := List.dropWhile_eq_nil_iff.1 hrest.2
          rw [List.takeWhile_eq_self_iff.2 hdigits] at hne hcontains hrest
          rw [← Option.some.inj h, ← hrest.1]
          exact ⟨hne, hdigits, rfl, hcontains⟩
        · cases h
      · rw [if_neg hcontains] at h
        cases h
  · rintro ⟨hne, hdigits, rfl, hcontains⟩
    rw [List.takeWhile_eq_self_iff.2 hdigits, List.dropWhile_eq_nil_iff.2 hdigits, if_neg hne,
      if_pos hcontains] at hnumber
    rw [wholeNumber, hnumber]

/-- The texts that are read as a number of the kind are its numerals, within its range. -/
theorem wholeNumber_eq_some_iff {s : Bytes} {v : Int} :
    k.wholeNumber s = some v ↔ k.Numeral s v ∧ k.contains v = true := by
  constructor
  · intro h
    -- The sign decides which of the forms the text has.
    rcases sign_cases k s with hsign | ⟨t, rfl, hsigned, hsign⟩ | ⟨t, rfl, hsigned, hsign⟩
    · rcases (wholeNumber_iff_of_sign hsign).1 h with ⟨hne, hdigits, rfl, hcontains⟩
      exact ⟨.digits hne hdigits, hcontains⟩
    · rcases (wholeNumber_iff_of_sign hsign).1 h with ⟨hne, hdigits, rfl, hcontains⟩
      exact ⟨.plus hsigned hne hdigits, hcontains⟩
    · rcases (wholeNumber_iff_of_sign hsign).1 h with ⟨hne, hdigits, rfl, hcontains⟩
      exact ⟨.minus hsigned hne hdigits, hcontains⟩
  · intro h
    rcases h with ⟨hnumeral, hcontains⟩
    cases hnumeral with
    | digits hne hs =>
        exact (wholeNumber_iff_of_sign (sign_of_digits hs)).2 ⟨hne, hs, rfl, hcontains⟩
    | @plus t hsigned hne hs =>
        have hsign : k.sign (Ascii.plus :: t) = (false, t) := by
          rw [sign, hsigned]
          rfl
        exact (wholeNumber_iff_of_sign hsign).2 ⟨hne, hs, rfl, hcontains⟩
    | @minus t hsigned hne hs =>
        have hsign : k.sign (Ascii.minus :: t) = (true, t) := by
          rw [sign, hsigned]
          rfl
        exact (wholeNumber_iff_of_sign hsign).2 ⟨hne, hs, rfl, hcontains⟩

theorem contains_of_wholeNumber {s : Bytes} {v : Int} (h : k.wholeNumber s = some v) :
    k.contains v = true :=
  (wholeNumber_eq_some_iff.1 h).2

/-- A written number of the kind is one of its numerals. -/
theorem numeral_ofInt {v : Int} (h : k.contains v = true) : k.Numeral (Decimal.ofInt v) v := by
  cases v with
  | ofNat n =>
      have hnumeral : k.Numeral (Decimal.ofNat n) _ :=
        .digits (Decimal.ofNat_ne_nil n) (Decimal.isDigit_of_mem_ofNat n)
      rw [Decimal.value_ofNat] at hnumeral
      exact hnumeral
  | negSucc n =>
      -- The kind has a negative number, so it reads the sign.
      have hnumeral : k.Numeral (Ascii.minus :: Decimal.ofNat (n + 1)) _ :=
        .minus (signed_of_contains_neg h) (Decimal.ofNat_ne_nil _) (Decimal.isDigit_of_mem_ofNat _)
      rw [Decimal.value_ofNat] at hnumeral
      exact hnumeral

/-- A number of the kind is read back as it was written. -/
theorem wholeNumber_ofInt {v : Int} (h : k.contains v = true) :
    k.wholeNumber (Decimal.ofInt v) = some v :=
  wholeNumber_eq_some_iff.2 ⟨numeral_ofInt h, h⟩

end IntKind

end SignedHttp
