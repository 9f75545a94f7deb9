import SignedHttp.Text.Decimal

/-!
# Binary Floating-Point Numbers

A number that is not whole is kept as the nearest number with 53 binary digits, as
machines do, but in integers: a sign, a mantissa and a power of two. All rounding is
to the nearest, a half to the even neighbour, and happens in `roundDiv`. Nothing here
depends on the machine's own arithmetic.

A number beyond the greatest is taken as the greatest, and one too small is zero.

The text of a number has the fewest digits that are read back as the same number. It
is written out for moderate sizes and has an exponent otherwise.

## Main definitions

* `roundDiv`: The rounded quotient of two natural numbers.
* `Binary64`: A floating-point number.
* `Binary64.ofFraction`, `Binary64.ofDecimal`: The nearest number.
* `Binary64.truncate`: The number without its fraction.
* `Binary64.text`: The shortest text of the number.
-/

namespace SignedHttp

/-- The quotient, rounded to the nearest integer, a half to the even one. -/
def roundDiv (num den : Nat) : Nat :=
  let q := num / den
  let twice := 2 * (num % den)
  if twice < den ∨ (twice = den ∧ q % 2 = 0) then q else q + 1

/-- The number `mantissa * 2 ^ exponent` or its negative. -/
structure Binary64 where
  negative : Bool := false
  mantissa : Nat := 0
  exponent : Int := 0
  deriving DecidableEq, Repr

namespace Binary64

/-- The greatest mantissa is below this. -/
def mantissaBound : Nat := Nat.pow 2 53

/-- The exponent of the smallest numbers. -/
def leastExponent : Int := -1074

/-- The exponent of the greatest numbers. -/
def greatestExponent : Int := 971

/-- The fraction `num / den` divided by a power of two, as a fraction. -/
def scaled (num den : Nat) (exponent : Int) : Nat × Nat :=
  if 0 ≤ exponent then (num, den * Nat.pow 2 exponent.toNat)
  else (num * Nat.pow 2 (-exponent).toNat, den)

/-- The exponent with which the mantissa of a fraction has 53 binary digits, if it may. -/
def exponentOf (num den : Nat) : Int :=
  -- The quotient lies between two neighbouring powers of two, so this is right or one too low.
  let low : Int := (num.log2 : Int) - den.log2 - 53
  let (n, d) := scaled num den low
  max leastExponent (if n / d < mantissaBound then low else low + 1)

/-- The number nearest to a fraction. -/
def ofFraction (negative : Bool) (num den : Nat) : Binary64 :=
  if num = 0 then { negative }
  else
    let exponent := exponentOf num den
    let (n, d) := scaled num den exponent
    let mantissa := roundDiv n d
    -- Rounding up may give a mantissa of 54 digits, which is a power of two.
    let (mantissa, exponent) :=
      if mantissa = mantissaBound then (mantissaBound / 2, exponent + 1) else (mantissa, exponent)
    if greatestExponent < exponent then ⟨negative, mantissaBound - 1, greatestExponent⟩
    else ⟨negative, mantissa, exponent⟩

/-- The number nearest to `digits * 10 ^ power`. -/
def ofDecimal (negative : Bool) (digits : Nat) (power : Int) : Binary64 :=
  -- Numbers far out of range are settled before a great power of ten is computed. About three
  -- tenths of the binary digits are as many as there are decimal ones.
  let size := ((digits.log2 * 30103 / 100000 : Nat) : Int) + power
  if digits = 0 ∨ size < -330 then { negative }
  else if 310 < size then ⟨negative, mantissaBound - 1, greatestExponent⟩
  else if 0 ≤ power then ofFraction negative (digits * Nat.pow 10 power.toNat) 1
  else ofFraction negative digits (Nat.pow 10 (-power).toNat)

/-- The absolute value of the number, as a fraction. -/
def fraction (x : Binary64) : Nat × Nat :=
  if 0 ≤ x.exponent then (x.mantissa * Nat.pow 2 x.exponent.toNat, 1)
  else (x.mantissa, Nat.pow 2 (-x.exponent).toNat)

/-- The number without its fraction. -/
def truncate (x : Binary64) : Int :=
  let (num, den) := x.fraction
  let magnitude : Int := (num / den : Nat)
  if x.negative then -magnitude else magnitude

/-- The power of ten that the first digit of a fraction stands for, for `num` above zero. -/
def leadingPower (num den : Nat) : Int :=
  if den ≤ num then (Decimal.ofNat (num / den)).length - 1
  else
    let up : Int := (Decimal.ofNat (den / num)).length
    if den ≤ num * Nat.pow 10 (up - 1).toNat then 1 - up else -up

/-- The number rounded to some digits: the digits and the power of ten of the last one. -/
def rounded (num den : Nat) (places : Nat) : Nat × Int :=
  let power := leadingPower num den + 1 - places
  if 0 ≤ power then (roundDiv num (den * Nat.pow 10 power.toNat), power)
  else (roundDiv (num * Nat.pow 10 (-power).toNat) den, power)

/-- The fewest digits, from `places` on, that are read back as the number. -/
def shortestFrom (x : Binary64) : Nat → Nat → Nat × Int
  | 0, places => rounded x.fraction.1 x.fraction.2 places
  | more + 1, places =>
    let (digits, power) := rounded x.fraction.1 x.fraction.2 places
    if ofDecimal x.negative digits power = x then (digits, power)
    else shortestFrom x more (places + 1)

/-- Digits without the zeros they end with. -/
def dropTrailingZeros (digits : Bytes) : Bytes :=
  (digits.reverse.dropWhile (· == Ascii.zero)).reverse

/-- Significant digits with a point after the first of them, if there are more. -/
def pointed : Bytes → Bytes
  | first :: second :: rest => first :: Ascii.dot :: second :: rest
  | short => short

/-- An exponent, with its sign and at least two digits. -/
def exponentText (power : Int) : Bytes :=
  (if power < 0 then "e-" else "e+") ++ Decimal.padded 2 power.natAbs

/-- The text of digits of which the first one stands for a power of ten. -/
def layout (digits : Bytes) (power : Int) : Bytes :=
  let zeros (n : Int) : Bytes := List.replicate n.toNat Ascii.zero
  let count : Int := digits.length
  if count ≤ power + 1 ∧ power < 15 then digits ++ zeros (power + 1 - count) ++ ".0"
  else if 0 ≤ power ∧ power < 15 then
    digits.take (power + 1).toNat ++ Ascii.dot :: digits.drop (power + 1).toNat
  else if -5 < power ∧ power < 0 then "0." ++ zeros (-power - 1) ++ digits
  else pointed digits ++ exponentText power

/-- The shortest text of the number. -/
def text (x : Binary64) : Bytes :=
  let sign : Bytes := if x.negative then "-" else ""
  if x.mantissa = 0 then sign ++ "0.0"
  else
    -- Seventeen digits tell any two numbers apart.
    let (digits, power) := shortestFrom x 16 1
    let all := Decimal.ofNat digits
    sign ++ layout (dropTrailingZeros all) (power + all.length - 1)

end Binary64

end SignedHttp
