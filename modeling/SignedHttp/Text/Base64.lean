import SignedHttp.Text.Bytes

/-!
# Base 64

A digest travels as padded base 64 over the standard alphabet. Writing takes
three bytes at a time and pads the last group. Reading is more generous than
writing: the bits of the last character that do not fill a byte are ignored,
whatever they are, so several texts may stand for the same bytes.

A text is read if its length is a multiple of four and it is alphabet characters
followed by at most two padding characters.

## Main definitions

* `Base64.encode`: The padded text of a byte sequence.
* `Base64.decode`: The bytes of a padded text.
-/

namespace SignedHttp

namespace Base64

/-- The character of a value below sixty-four. -/
def char (v : UInt8) : UInt8 :=
  if v < 26 then 0x41 + v
  else if v < 52 then 0x61 + (v - 26)
  else if v < 62 then 0x30 + (v - 52)
  else if v = 62 then Ascii.plus
  else Ascii.slash

/-- The value of a character of the alphabet. -/
def charValue (b : UInt8) : Option UInt8 :=
  if Ascii.isUpper b then some (b - 0x41)
  else if Ascii.isLower b then some (b - 0x61 + 26)
  else if Ascii.isDigit b then some (b - 0x30 + 52)
  else if b = Ascii.plus then some 62
  else if b = Ascii.slash then some 63
  else none

/-- Three bytes in four characters; a shorter last group is padded. -/
def encode : Bytes → Bytes
  | [] => []
  | [a] => [char (a >>> 2), char ((a &&& 3) <<< 4), Ascii.equals, Ascii.equals]
  | [a, b] =>
    [char (a >>> 2), char ((a &&& 3) <<< 4 ||| b >>> 4), char ((b &&& 15) <<< 2), Ascii.equals]
  | a :: b :: c :: s =>
    char (a >>> 2) :: char ((a &&& 3) <<< 4 ||| b >>> 4)
      :: char ((b &&& 15) <<< 2 ||| c >>> 6) :: char (c &&& 63) :: encode s

/-- The whole bytes in a sequence of six-bit values. -/
def ofSextets : List UInt8 → Bytes
  | p :: q :: r :: t :: s =>
    (p <<< 2 ||| q >>> 4) :: (q <<< 4 ||| r >>> 2) :: (r <<< 6 ||| t) :: ofSextets s
  | [p, q, r] => [p <<< 2 ||| q >>> 4, q <<< 4 ||| r >>> 2]
  | [p, q] => [p <<< 2 ||| q >>> 4]
  | [_] => []
  | [] => []

/-- The bytes of a padded text; `none` if it is not padded base 64. -/
def decode (s : Bytes) : Option Bytes :=
  let padding := s.count Ascii.equals
  -- An equals sign before the end is left in the text, where it is no character.
  if s.length % 4 ≠ 0 ∨ 2 < padding then none
  else ((s.take (s.length - padding)).mapM charValue).map ofSextets

end Base64

end SignedHttp
