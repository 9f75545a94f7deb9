import SignedHttp.Text.Bytes

/-!
# Decimal Integers

Numbers are written in decimal without leading zeros and read back within the
range of a machine integer. Reading takes the longest beginning of a text that
has the shape of a number, an optional sign (signed kinds only) and one or more
digits, and accepts it if its value is in range. A number out of range is not
shortened to one that fits: reading fails, and the text is left as it was.

Reading works in words of the width that is asked for, so a number has to be
refused before it would wrap. Behind its leading zeros it is compared with the
greatest number of the width as a text: more digits are too many, and of as many
digits the first that differ decide. Only then are the digits added up. A signed
kind reads the magnitude as an unsigned word first; the least number has a
magnitude one above that of the greatest, so behind a minus sign one is taken off
before the comparison.

`IntKind` says how many bits a number has and whether it may be negative; its
range is `IntKind.least` to `IntKind.greatest`.

## Main definitions

* `Decimal.ofNat`, `Decimal.ofInt`: The decimal text of a number.
* `Decimal.value`: The number that a text of digits stands for.
* `Width`: How many bits a machine integer has.
* `Width.magnitude`: The number without sign a text begins with, and what is left.
* `IntKind`: A kind of machine integer.
* `IntKind.number`: The number a text begins with, and what is left of the text.
* `IntKind.wholeNumber`: The number that a text is.
-/

namespace SignedHttp

namespace Decimal

/-- The byte of a digit. -/
def digit (d : Nat) : UInt8 := Ascii.zero + d.toUInt8

/-- The value of a digit's byte. -/
def digitValue (b : UInt8) : Nat := b.toNat - 0x30

/-- The decimal text of a natural number. -/
def ofNat (n : Nat) : Bytes :=
  if n < 10 then [digit n] else ofNat (n / 10) ++ [digit (n % 10)]
termination_by n
decreasing_by omega

/-- The decimal text of an integer. -/
def ofInt : Int → Bytes
  | .ofNat n => ofNat n
  | .negSucc n => Ascii.minus :: ofNat (n + 1)

/-- The value of a text of digits, most significant digit first. -/
def value (digits : Bytes) : Nat := digits.foldl (fun v b => 10 * v + digitValue b) 0

/-- Is a text of digits greater than another one of the same length? The first digits that
differ decide. -/
def exceeds : Bytes → Bytes → Bool
  | b :: digits, c :: bound =>
    if digitValue c < digitValue b then true
    else if digitValue b < digitValue c then false
    else exceeds digits bound
  | _, _ => false

/-- Digits, the last one of the text first, added up in words of some bits, where sums and
products wrap: from the sum so far, and the weight of the next digit. -/
def addUp {bits : Nat} : Bytes → BitVec bits → BitVec bits → BitVec bits
  | [], sum, _ => sum
  | b :: digits, sum, weight =>
    addUp digits (sum + weight * BitVec.ofNat bits (digitValue b)) (weight * 10)

/-- The decimal text of a number, with zeros in front up to `width` digits. -/
def padded (width : Nat) (n : Nat) : Bytes :=
  List.replicate (width - (ofNat n).length) Ascii.zero ++ ofNat n

end Decimal

/-- The width of a machine integer. -/
inductive Width
  | w8
  | w16
  | w32
  | w64
  deriving DecidableEq, Repr

namespace Width

/-- How many bits a number of the width has. -/
def bits : Width → Nat
  | w8 => 8
  | w16 => 16
  | w32 => 32
  | w64 => 64

/-- The greatest number of the width without sign, in decimal. -/
def greatestText : Width → Bytes
  | w8 => "255"
  | w16 => "65535"
  | w32 => "4294967295"
  | w64 => "18446744073709551615"

/-- Do the digits, which begin with no zero, stand for a number that the width has no room for? -/
def isTooGreat (w : Width) (digits : Bytes) : Bool :=
  w.greatestText.length < digits.length
    || digits.length == w.greatestText.length && Decimal.exceeds digits w.greatestText

/-- The number without sign that a text begins with, if the width has room for it, and what is
left of the text. -/
def magnitude (w : Width) (s : Bytes) : Option (BitVec w.bits) × Bytes :=
  let body := s.dropWhile (· == Ascii.zero)
  let digits := body.takeWhile Ascii.isDigit
  if digits.isEmpty then
    -- Nothing but zeros is a number, too.
    if s.head? = some Ascii.zero then (some 0, body) else (none, s)
  else if w.isTooGreat digits then (none, s)
  else (some (Decimal.addUp digits.reverse 0 1), body.dropWhile Ascii.isDigit)

end Width

/-- A kind of machine integer: its width, and whether it has negative values. -/
structure IntKind where
  width : Width
  signed : Bool
  deriving DecidableEq, Repr

namespace IntKind

/-- How many bits a number of the kind has. -/
abbrev bits (k : IntKind) : Nat := k.width.bits

/-- Signed integers of 64 bits, the kind of time stamps. -/
def int64 : IntKind := ⟨.w64, true⟩

/-- Signed integers of 32 bits, the kind of years. -/
def int32 : IntKind := ⟨.w32, true⟩

/-- Unsigned integers of 64 bits. -/
def uint64 : IntKind := ⟨.w64, false⟩

/-- The least value of the kind. -/
def least (k : IntKind) : Int := if k.signed then -(Nat.pow 2 (k.bits - 1) : Nat) else 0

/-- The greatest value of the kind. -/
def greatest (k : IntKind) : Int :=
  if k.signed then (Nat.pow 2 (k.bits - 1) : Nat) - 1 else (Nat.pow 2 k.bits : Nat) - 1

/-- Is the value one of the kind? -/
def contains (k : IntKind) (v : Int) : Bool := k.least ≤ v && v ≤ k.greatest

/-- The sign a text begins with, if the kind has signs, and the rest: is the number negative? -/
def sign (k : IntKind) : Bytes → Bool × Bytes
  | b :: s =>
    if k.signed && b == Ascii.plus then (false, s)
    else if k.signed && b == Ascii.minus then (true, s)
    else (false, b :: s)
  | [] => (false, [])

/-- The number of a magnitude behind a sign, if it is one of the kind. -/
def ofMagnitude (k : IntKind) (negative : Bool) (m : BitVec k.bits) : Option Int :=
  let top := BitVec.ofInt k.bits k.greatest
  if !k.signed then some m.toNat
  else if m = 0 then some 0
  else if negative then
    -- The least number has no counterpart, so the sign is put on one less.
    if m - 1 ≤ top then some (-(m - 1) - 1).toInt else none
  else if top < m then none
  else some m.toInt

/-- The number a text begins with, if it is one of the kind, and what is left of the text: all of
it, if there is no such number. -/
def number (k : IntKind) (s : Bytes) : Option Int × Bytes :=
  let (negative, body) := k.sign s
  match k.width.magnitude body with
  | (none, _) => (none, s)
  | (some m, rest) =>
    match k.ofMagnitude negative m with
    | none => (none, s)
    | some v => (some v, rest)

/-- The number that the whole text is, if it is one of the kind. -/
def wholeNumber (k : IntKind) (s : Bytes) : Option Int :=
  match k.number s with
  | (some v, []) => some v
  | _ => none

end IntKind

end SignedHttp
