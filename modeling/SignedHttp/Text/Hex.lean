import SignedHttp.Text.Bytes

/-!
# Hexadecimal

Signatures, keys and fingerprints travel as hexadecimal text. Writing uses lower
case and two digits a byte; reading accepts either case and refuses a text of odd
length or with any other byte. Reading what was written gives it back
(`decode_encode`).

## Main definitions

* `Hex.encode`: The text of a byte sequence, two digits a byte.
* `Hex.decode`: The byte sequence of a text.

## Theorems

* `decode_encode`: Reading undoes writing.
* `length_encode`: The text is twice as long.
-/

namespace SignedHttp

namespace Hex

/-- The lower-case digit of a value below sixteen. -/
def digit (v : UInt8) : UInt8 := if v < 10 then 0x30 + v else 0x57 + v

/-- The value of a digit of either case. -/
def digitValue (b : UInt8) : Option UInt8 :=
  if 0x30 ≤ b ∧ b ≤ 0x39 then some (b - 0x30)
  else if 0x61 ≤ b ∧ b ≤ 0x66 then some (b - 0x57)
  else if 0x41 ≤ b ∧ b ≤ 0x46 then some (b - 0x37)
  else none

/-- Two digits for each byte. -/
def encode : Bytes → Bytes
  | [] => []
  | b :: s => digit (b >>> 4) :: digit (b &&& 0x0f) :: encode s

/-- The bytes that a text of digits stands for; `none` for odd length or a byte that is no digit. -/
def decode : Bytes → Option Bytes
  | [] => some []
  | [_] => none
  | hi :: lo :: s =>
    match digitValue hi, digitValue lo, decode s with
    | some h, some l, some rest => some ((h * 16 + l) :: rest)
    | _, _, _ => none

/-- Does the text consist of hexadecimal digits? -/
def isHex (s : Bytes) : Bool := s.all Ascii.isHexDigit

theorem length_encode (s : Bytes) : (encode s).length = 2 * s.length := by
  induction s with
  | nil => rfl
  | cons b s ih => simp only [encode, List.length_cons, ih]; omega

theorem digitValue_digit (v : UInt8) : v < 16 → digitValue (digit v) = some v :=
  Ascii.forall_of_fin (p := fun v => v < 16 → digitValue (digit v) = some v)
    (by decide +kernel) v

theorem nibbles (b : UInt8) : b >>> 4 < 16 ∧ b &&& 0x0f < 16 ∧
    (b >>> 4) * 16 + (b &&& 0x0f) = b :=
  Ascii.forall_of_fin (p := fun b => b >>> 4 < 16 ∧ b &&& 0x0f < 16 ∧
    (b >>> 4) * 16 + (b &&& 0x0f) = b) (by decide +kernel) b

theorem decode_encode (s : Bytes) : decode (encode s) = some s := by
  induction s with
  | nil => rfl
  | cons b s ih =>
    obtain ⟨hi, lo, hb⟩ := nibbles b
    simp only [encode, decode, digitValue_digit _ hi, digitValue_digit _ lo, ih, hb]

end Hex

end SignedHttp
