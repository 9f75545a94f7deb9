import SignedHttp.Proofs.Text.Decimal

/-!
# The Longest Number

Reading a number takes the longest beginning of a text that is a numeral, or nothing.

The longest numeral is a matter of form alone. It is looked for without regard to the
range, so a number that is too great is not cut down to one that fits. All numerals that
a text begins with have the same sign and go on with digits of the same run
(`Numeral.sign_append`), so the longest of them has the whole run, and a text without a
digit behind the sign begins with none.

What is read is then fixed by three cases: a numeral in range, a numeral out of range, no
numeral. In the last two nothing is taken from the text.

## Main definitions

* `IntKind.LongestNumeral`: The longest numeral at the beginning of a text.
* `IntKind.Reads`: What reading a number is to give, and to leave of the text.

## Theorems

* `Numeral.sign_append`: The sign and the digits of a numeral that more text follows.
* `longestNumeral_of_sign`: The longest numeral is the sign and all digits behind it.
* `number_eq_iff_reads`: What is read, and what is left, in all cases.
-/

namespace SignedHttp

namespace IntKind

variable {k : IntKind} {s p q rest t : Bytes} {v w : Int}

/-- A text begins with a numeral, of the value `v`, and with none that is longer. -/
structure LongestNumeral (k : IntKind) (s p rest : Bytes) (v : Int) : Prop where
  split : s = p ++ rest
  numeral : k.Numeral p v
  longest : ∀ q t w, s = q ++ t → k.Numeral q w → q.length ≤ p.length

/-- What is read of a text, and what is left: the value of its longest numeral and the text behind
it, if the kind contains the value, and otherwise nothing and the whole text. -/
inductive Reads (k : IntKind) (s : Bytes) : Option Int × Bytes → Prop
  | number {p rest : Bytes} {v : Int} (hlongest : k.LongestNumeral s p rest v)
      (hcontains : k.contains v = true) : Reads k s (some v, rest)
  | nothing (h : ∀ p rest v, k.LongestNumeral s p rest v → k.contains v = false) :
      Reads k s (none, s)

/-- A numeral is a sign and digits, and it is read as such whatever follows it. -/
theorem Numeral.sign_append (h : k.Numeral p v) (t : Bytes) :
    ∃ negative digits, k.sign (p ++ t) = (negative, digits ++ t) ∧ digits ≠ [] ∧
      (∀ b ∈ digits, Ascii.isDigit b = true) ∧
      v = if negative then -(Decimal.value digits : Int) else Decimal.value digits := by
  cases h with
  | digits hne hs =>
      refine ⟨false, p, ?_, hne, hs, rfl⟩
      cases p with
      | nil => exact absurd rfl hne
      | cons b p =>
          -- A digit is no sign, and only the first byte is looked at.
          have hsign := sign_of_digits (k := k) (s := [b])
            (List.forall_mem_singleton.2 (hs b (List.mem_cons_self ..)))
          rw [sign] at hsign
          rw [List.cons_append, sign]
          split at hsign
          · cases hsign
          · split at hsign
            · cases hsign
            · next hplus hminus => rw [if_neg hplus, if_neg hminus]
  | @plus digits hsigned hne hs =>
      refine ⟨false, digits, ?_, hne, hs, rfl⟩
      rw [List.cons_append, sign, hsigned]
      rfl
  | @minus digits hsigned hne hs =>
      refine ⟨true, digits, ?_, hne, hs, rfl⟩
      rw [List.cons_append, sign, hsigned]
      rfl

/-- A numeral at the beginning of a text has no more digits than there are behind the sign. -/
theorem le_length_of_numeral {body : Bytes} {negative : Bool} (hsign : k.sign s = (negative, body))
    (hsplit : s = p ++ rest) (h : k.Numeral p v) :
    body.takeWhile Ascii.isDigit ≠ [] ∧ (body.dropWhile Ascii.isDigit).length ≤ rest.length := by
  rcases h.sign_append rest with ⟨negative', digits, hread, hne, hdigits, -⟩
  rw [← hsplit, hsign, Prod.mk.injEq] at hread
  rw [hread.2, List.takeWhile_append_of_pos hdigits, List.dropWhile_append_of_pos hdigits]
  exact ⟨List.append_ne_nil_of_left_ne_nil hne _, (List.dropWhile_sublist _).length_le⟩

/-- A text with a digit behind the sign begins with a numeral, and the longest one has all of the
digits. -/
theorem longestNumeral_of_sign {body : Bytes} {negative : Bool}
    (hsign : k.sign s = (negative, body)) (hne : body.takeWhile Ascii.isDigit ≠ []) :
    ∃ p, k.LongestNumeral s p (body.dropWhile Ascii.isDigit)
      (if negative then -(Decimal.value (body.takeWhile Ascii.isDigit) : Int)
        else Decimal.value (body.takeWhile Ascii.isDigit)) := by
  have hdigits : ∀ b ∈ body.takeWhile Ascii.isDigit, Ascii.isDigit b = true :=
    fun b hb => List.mem_takeWhile_imp hb
  have hbody : body = body.takeWhile Ascii.isDigit ++ body.dropWhile Ascii.isDigit :=
    List.takeWhile_append_dropWhile.symm
  have hnumeral : ∃ p, s = p ++ body.dropWhile Ascii.isDigit ∧ k.Numeral p
      (if negative then -(Decimal.value (body.takeWhile Ascii.isDigit) : Int)
        else Decimal.value (body.takeWhile Ascii.isDigit)) := by
    rcases sign_cases k s with hs | ⟨t, hst, hsigned, hs⟩ | ⟨t, hst, hsigned, hs⟩
    · rw [hs, Prod.mk.injEq] at hsign
      rw [← hsign.1, hsign.2]
      exact ⟨_, hbody, .digits hne hdigits⟩
    · rw [hs, Prod.mk.injEq] at hsign
      rw [hst, ← hsign.1, hsign.2]
      exact ⟨_, congrArg (Ascii.plus :: ·) hbody, .plus hsigned hne hdigits⟩
    · rw [hs, Prod.mk.injEq] at hsign
      rw [hst, ← hsign.1, hsign.2]
      exact ⟨_, congrArg (Ascii.minus :: ·) hbody, .minus hsigned hne hdigits⟩
  rcases hnumeral with ⟨p, hsplit, hp⟩
  refine ⟨p, hsplit, hp, fun q t w hq hw => ?_⟩
  have hrest := (le_length_of_numeral hsign hq hw).2
  have hlength := congrArg List.length (hsplit.symm.trans hq)
  rw [List.length_append, List.length_append] at hlength
  omega

/-- A text has one longest numeral, and that has one value. -/
theorem LongestNumeral.unique (hp : k.LongestNumeral s p rest v) (hq : k.LongestNumeral s q t w) :
    rest = t ∧ v = w := by
  have hlength := Nat.le_antisymm (hq.longest p rest v hp.split hp.numeral)
    (hp.longest q t w hq.split hq.numeral)
  -- Of one length, they are the same beginning of the text.
  rcases List.append_inj (hp.split.symm.trans hq.split) hlength with ⟨rfl, rfl⟩
  rcases hp.numeral.sign_append [] with ⟨_, _, hreadp, -, -, hv⟩
  rcases hq.numeral.sign_append [] with ⟨_, _, hreadq, -, -, hw⟩
  rw [hreadp, Prod.mk.injEq, List.append_cancel_right_eq] at hreadq
  exact ⟨rfl, by rw [hv, hw, hreadq.1, hreadq.2]⟩

/-- What is read is what is to be read. -/
theorem reads_number (k : IntKind) (s : Bytes) : k.Reads s (k.number s) := by
  rcases hsign : k.sign s with ⟨negative, body⟩
  rw [number_of_sign hsign rfl rfl]
  by_cases hnil : body.takeWhile Ascii.isDigit = []
  · rw [if_pos hnil]
    exact .nothing fun p rest v h =>
      absurd hnil (le_length_of_numeral hsign h.split h.numeral).1
  · rw [if_neg hnil]
    rcases longestNumeral_of_sign hsign hnil with ⟨p, hp⟩
    generalize (if negative then -(Decimal.value (body.takeWhile Ascii.isDigit) : Int)
      else Decimal.value (body.takeWhile Ascii.isDigit)) = v at hp ⊢
    by_cases hcontains : k.contains v = true
    · rw [if_pos hcontains]
      exact .number hp hcontains
    · rw [if_neg hcontains]
      -- A numeral out of range is still the longest one, so nothing shorter is read instead.
      refine .nothing fun q t w hq => ?_
      rw [← (hp.unique hq).2, Bool.eq_false_iff]
      exact hcontains

/-- What is to be read of a text is determined by the text. -/
theorem Reads.unique {x y : Option Int × Bytes} (hx : k.Reads s x) (hy : k.Reads s y) : x = y := by
  cases hx with
  | number hp hv =>
      cases hy with
      | number hq hw => rw [(hp.unique hq).1, (hp.unique hq).2]
      | nothing h => rw [h _ _ _ hp] at hv; cases hv
  | nothing h =>
      cases hy with
      | number hq hw => rw [h _ _ _ hq] at hw; cases hw
      | nothing _ => rfl

/-- Reading takes the longest numeral at the beginning of a text if its value is one of the kind,
and otherwise takes nothing. A whole text is a number if it is such a numeral. -/
theorem number_eq_iff_reads (k : IntKind) (s : Bytes) :
    (∀ out, k.number s = out ↔ k.Reads s out) ∧
      ∀ v, k.wholeNumber s = some v ↔ k.LongestNumeral s s [] v ∧ k.contains v = true := by
  refine ⟨fun out => ⟨fun h => h ▸ reads_number k s, fun h => (reads_number k s).unique h⟩,
    fun v => ?_⟩
  rw [wholeNumber_eq_some_iff]
  refine and_congr_left fun _ => ⟨fun h => ?_, fun h => h.numeral⟩
  -- No beginning of a text is longer than the text.
  refine ⟨(List.append_nil s).symm, h, fun q t w hq _ => ?_⟩
  rw [hq, List.length_append]
  exact Nat.le_add_right _ _

/-- The least number of a width has a magnitude that its greatest number does not have. -/
example :
    IntKind.number ⟨.w8, true⟩ "-00128;" = (some (-128), Bytes.ofString ";") ∧
      IntKind.number ⟨.w8, true⟩ "+128;" = (none, Bytes.ofString "+128;") := by
  decide +kernel

end IntKind

end SignedHttp
