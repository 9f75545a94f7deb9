import SignedHttp.Text.Binary64

/-!
# Durations

A duration is a number of milliseconds, kept exactly as a fraction. Durations that are
measured are whole; an average, or one that was read from elsewhere, is a binary
floating-point number, which is a fraction too. So a duration can be shown to any
number of places with one rounding.

Two forms are used: a fixed number of places (`fixed`), and six significant digits
with an exponent for large numbers (`general`), the form in log lines.

## Main definitions

* `Milliseconds`: A duration, as a signed fraction.
* `Milliseconds.ofBinary64`: The exact value of a floating-point number.
* `Milliseconds.fixed`: The duration with a fixed number of decimal places.
* `Milliseconds.general`: A whole duration with six significant digits.
-/

namespace SignedHttp

/-- A number of milliseconds, as a fraction with a sign of its own. -/
structure Milliseconds where
  negative : Bool := false
  numerator : Nat := 0
  denominator : Nat := 1
  deriving DecidableEq, Repr

namespace Milliseconds

/-- A whole number of milliseconds. -/
def ofNat (n : Nat) : Milliseconds := ⟨false, n, 1⟩

/-- The exact value of a floating-point number. -/
def ofBinary64 (x : Binary64) : Milliseconds := ⟨x.negative, x.fraction.1, x.fraction.2⟩

/-- The mean of `total` milliseconds over `count` occasions, zero if there was none. -/
def mean (total count : Nat) : Milliseconds :=
  if count = 0 then {} else ofBinary64 (.ofFraction false total count)

/-- The duration with `places` digits after the point. -/
def fixed (places : Nat) (t : Milliseconds) : Bytes :=
  let scaled := roundDiv (t.numerator * Nat.pow 10 places) t.denominator
  let whole := Decimal.ofNat (scaled / Nat.pow 10 places)
  let part := Decimal.padded places (scaled % Nat.pow 10 places)
  (if t.negative then "-" else "") ++ whole ++ (if places = 0 then [] else Ascii.dot :: part)

/-- A whole number with at most six significant digits, with an exponent from a million on. -/
def general (n : Nat) : Bytes :=
  let length := (Decimal.ofNat n).length
  if length ≤ 6 then Decimal.ofNat n
  else
    let head := roundDiv n (Nat.pow 10 (length - 6))
    let (head, exponent) := if head = 1000000 then (100000, length) else (head, length - 1)
    Binary64.pointed (Binary64.dropTrailingZeros (Decimal.ofNat head))
      ++ Binary64.exponentText exponent

end Milliseconds

end SignedHttp
